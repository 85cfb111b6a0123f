import EECS339.Lib.Ancestry
import EECS339.Rwb.Database

/-!
# Referrals

Every user but the root user was referred by another. No constraint keeps the referrals
from going round in a circle; that they do not follows from the order in which users
come and go.
-/
namespace Rwb
open Ancestry

variable {db db' : Database} {u v w : User} {path : List User}

/-- `v` is the row that the referer of `u` names. -/
def Refers (db : Database) (u v : User) : Prop := v ∈ db.users ∧ v.name = u.referer

def IsRoot (u : User) : Prop := u.name.val = "root".toList

theorem refers_functional (db : Database) (u v w : User) (h : Refers db u v) (h' : Refers db u w) :
    v = w :=
  List.inj_on_of_nodup_map db.user_key h.1 h'.1 (h.2.trans h'.2.symm)

/-- From each user the referers lead to the root user, with no user twice, and every
permission belongs to a user. -/
structure ReferralForest (db : Database) : Prop where
  leads : ∀ u ∈ db.users, ∃ path, Path (Refers db) IsRoot u path ∧ (path.map User.name).Nodup
  permissions : ∀ p ∈ db.permissions, ∃ u ∈ db.users, u.name = p.1

/-- All users have a path. -/
def Rooted (db : Database) : Prop := ∀ u ∈ db.users, ∃ path, Path (Refers db) IsRoot u path

theorem Rooted.forest (h : Rooted db) : ReferralForest db := by
  refine ⟨fun u m => ?_, fun p m => ?_⟩
  · obtain ⟨path, leads⟩ := h u m
    have rows : ∀ v ∈ path, v ∈ db.users := leads.forall m fun _ _ link => link.1
    refine ⟨path, leads, (leads.nodup (refers_functional db)).map_on ?_⟩
    exact fun v hv w hw same => List.inj_on_of_nodup_map db.user_key (rows v hv) (rows w hw) same
  · exact List.mem_map.mp (db.perm_user p m)

/-! ## The statements -/

/-- A new user refers to a row that is there, or to himself as the root user. -/
theorem Rooted.insertUser (h : Rooted db) (inserted : db.insertUser u = .ok db') : Rooted db' := by
  unfold Database.insertUser at inserted
  split_ifs at inserted with known used referer
  rw [Except.ok.injEq] at inserted
  have users : db'.users = u :: db.users := by rw [← inserted]
  have grown : ∀ v w, Refers db v w → Refers db' v w := by
    intro v w link
    exact ⟨users ▸ List.mem_cons_of_mem _ link.1, link.2⟩
  intro v m
  rw [users] at m
  rcases List.mem_cons.mp m with rfl | m
  · by_cases top : IsRoot v
    · exact ⟨[v], .stop top⟩
    · have other : v.referer ≠ v.name := fun same => v.sane_referer.elim top fun ne => ne same.symm
      obtain ⟨w, hw, name⟩ := List.mem_map.mp (List.mem_of_ne_of_mem other referer)
      obtain ⟨path, leads⟩ := h w hw
      exact ⟨v :: path, .up top (grown v w ⟨hw, name⟩) (leads.mono grown)⟩
  · obtain ⟨path, leads⟩ := h v m
    exact ⟨path, leads.mono grown⟩

/-- Who is removed is the referer of nobody else, so he is on no other path. -/
theorem Rooted.deleteUser {name : Option Str} (h : Rooted db)
    (deleted : db.deleteUser name = .ok db') : Rooted db' := by
  unfold Database.deleteUser at deleted
  split_ifs at deleted with child
  rw [Except.ok.injEq] at deleted
  have users : db'.users = db.users.filter fun u => some u.name.val ≠ name := by rw [← deleted]
  intro v m
  rw [users, List.mem_filter] at m
  obtain ⟨path, leads⟩ := h v m.1
  refine ⟨path, leads.restrict (fun u => u ∈ db.users ∧ some u.name.val ≠ name)
    ⟨m.1, of_decide_eq_true m.2⟩ (fun _ _ => Iff.rfl) ?_⟩
  intro b c kept _ link
  have stays : some c.name.val ≠ name := by
    rw [link.2]
    exact fun named => child ⟨b, kept.1, kept.2, named⟩
  refine ⟨⟨link.1, stays⟩, ?_, link.2⟩
  rw [users, List.mem_filter]
  exact ⟨link.1, decide_eq_true stays⟩

/-! ## Runs -/

/-- The calls of `UserAdd` and `UserDel`, each with the environment that it meets. -/
inductive UserCall where
  | add (env : Environment) (name password email referer : Option Str)
  | del (env : Environment) (name : Option Str)

/-- The tables behind the call. -/
def Database.after (db : Database) : UserCall → Database
  | .add env name password email referer => (userAdd env db name password email referer).2
  | .del env name => (userDel env db name).2

/-- A statement that fails changes nothing. -/
theorem evalSQL_cases (env : Environment) (db : Database) (q : Query) :
    (evalSQL env db q).2 = db ∨ ∃ n db', db.execute q = .ok (n, db') ∧ (evalSQL env db q).2 = db' := by
  rw [evalSQL, execSQL]
  cases env.refused q with
  | some why => exact Or.inl rfl
  | none =>
      cases ran : db.execute q with
      | error e => exact Or.inl rfl
      | ok r => exact Or.inr ⟨r.1, r.2, rfl, rfl⟩

theorem execute_insertUser {name password email referer : Option Str} {n : Nat}
    (ran : db.execute (.insertUser name password email referer) = .ok (n, db')) :
    ∃ u, db.insertUser u = .ok db' := by
  rw [Database.execute] at ran
  cases values : User.ofValues name password email referer with
  | error e =>
      rw [values] at ran
      cases ran
  | ok u =>
      rw [values] at ran
      change (db.insertUser u).map (Prod.mk 0) = .ok (n, db') at ran
      cases inserted : db.insertUser u with
      | error e =>
          rw [inserted] at ran
          cases ran
      | ok db1 =>
          rw [inserted] at ran
          cases ran
          exact ⟨u, inserted⟩

theorem execute_deleteUser {name : Option Str} {n : Nat}
    (ran : db.execute (.deleteUser name) = .ok (n, db')) : db.deleteUser name = .ok db' := by
  change (db.deleteUser name).map (Prod.mk 0) = .ok (n, db') at ran
  cases deleted : db.deleteUser name with
  | error e =>
      rw [deleted] at ran
      cases ran
  | ok db1 =>
      rw [deleted] at ran
      cases ran
      rfl

theorem Rooted.after (h : Rooted db) (call : UserCall) : Rooted (db.after call) := by
  cases call with
  | add env name password email referer =>
      rw [Database.after, userAdd]
      rcases evalSQL_cases env db (.insertUser name password email referer) with
        unchanged | ⟨n, db', ran, changed⟩
      · rw [unchanged]
        exact h
      · obtain ⟨u, inserted⟩ := execute_insertUser ran
        rw [changed]
        exact h.insertUser inserted
  | del env name =>
      rw [Database.after, userDel]
      rcases evalSQL_cases env db (.deleteUser name) with unchanged | ⟨n, db', ran, changed⟩
      · rw [unchanged]
        exact h
      · rw [changed]
        exact h.deleteUser (execute_deleteUser ran)

theorem Rooted.run (h : Rooted db) (calls : List UserCall) : Rooted (calls.foldl Database.after db) := by
  induction calls generalizing db with
  | nil => exact h
  | cons call calls ih => exact ih (h.after call)

theorem rooted_rwb : Rooted Database.rwb := by
  intro u m
  have rootRow : Path (Refers Database.rwb) IsRoot Database.root [Database.root] := .stop rfl
  rcases List.mem_cons.mp m with rfl | m
  · exact ⟨_, rootRow⟩
  · obtain rfl := List.mem_singleton.mp m
    have below : ¬ IsRoot Database.anon := by
      unfold IsRoot
      decide
    exact ⟨_, .up below ⟨List.mem_cons_self, rfl⟩ rootRow⟩

/-- Whoever is added and deleted, and whatever calls fail, the referers form a tree with
the root user on top, and permissions belong to users. -/
theorem referral_forest (calls : List UserCall) :
    ReferralForest (calls.foldl Database.after Database.rwb) :=
  (rooted_rwb.run calls).forest

end Rwb
