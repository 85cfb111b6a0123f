import EECS339.Rwb.Pages

/-!
# Who may call what

A page calls at most once, and on the tables the request found. All pages but two
check the permission first.
-/
namespace Rwb
open Dispatch

/-- The permissions that allow a call, one of which is enough. -/
def Effect.demands : Effect → List String
  | .userAdd .. => ["add-users", "manage-users"]
  | .inviteUser .. => ["invite-users", "manage-users"]
  | .userDel .. | .giveUserPerm .. | .revokeUserPerm .. => ["manage-users"]

def Permitted (db : Database) (user : Option Str) (e : Effect) : Prop :=
  ∃ perm ∈ e.demands, db.Holds user perm.toList

theorem permitted_pair {db : Database} {user : Option Str} {e : Effect} {perm perm' : String}
    (demands : e.demands = [perm, perm']) :
    Permitted db user e ↔ db.Holds user perm.toList ∨ db.Holds user perm'.toList := by
  simp only [Permitted, demands, List.mem_cons, List.not_mem_nil, or_false, exists_eq_or_imp,
    exists_eq_left]

theorem not_permitted_pair {db : Database} {user : Option Str} {e : Effect} {perm perm' : String}
    (demands : e.demands = [perm, perm']) (forbidden : ¬ Permitted db user e) :
    ¬ db.Holds user perm.toList ∧ ¬ db.Holds user perm'.toList :=
  not_or.mp fun holds => forbidden ((permitted_pair demands).mpr holds)

variable {env : Environment} {db : Database} {q : Request} {s : Session} {w w1 w2 : World}
  {e : Effect} {es es' : List (Database × Effect)}

/-! ## What a page can do -/

/-- From `w` to `w'` exactly these calls took place, and without a call the tables
stayed and no command was given. -/
structure Calls (w w' : World) (es : List (Database × Effect)) : Prop where
  effects : w'.effects = w.effects ++ es
  still : es = [] → w'.db = w.db ∧ w'.mail = w.mail

theorem Calls.refl (w : World) : Calls w w [] := ⟨(List.append_nil _).symm, fun _ => ⟨rfl, rfl⟩⟩

theorem Calls.print (h : Calls w w1 es) (out : Html) : Calls w (w1.print out) es := ⟨h.effects, h.still⟩

theorem Calls.offer (h : Calls w w1 es) (may : Bool) (act label : String) :
    Calls w (w1.offer may act label) es := by
  rw [World.offer]
  split_ifs
  · exact h.print _
  · exact h

theorem perform_calls (env : Environment) (e : Effect) (w : World) :
    Calls w (perform env e w).2 [(w.db, e)] := by
  refine ⟨?_, fun none => absurd none (List.cons_ne_nil _ _)⟩
  cases e <;> rfl

theorem attempt_calls (env : Environment) (e : Effect) (complaint : String) (done : Str) (w : World) :
    Calls w (attempt env e complaint done w) [(w.db, e)] := by
  have called := perform_calls env e w
  rw [attempt]
  cases performed : perform env e w with
  | mk error w' =>
      rw [performed] at called
      cases error with
      | some why => exact called.print _
      | none => exact called.print _

theorem formOrRun_calls {form run : World → World} (screen : Calls w (form w) [])
    (called : Calls w (run w) [(w.db, e)]) :
    Calls w (formOrRun s form run w) (if s.run then [(w.db, e)] else []) := by
  rw [formOrRun]
  split_ifs
  · exact called
  · exact screen

/-- A guarded page calls only what one of its permissions allows. -/
theorem guarded_calls {perms : List String} {refusal : String} {form run : World → World}
    (demands : e.demands = perms) (screen : Calls w (form w) [])
    (called : Calls w (run w) [(w.db, e)]) :
    ∃ es, Calls w (guarded env s perms refusal form run w) es ∧
      ∀ x ∈ es, x.1 = w.db ∧ Permitted w.db s.user x.2 := by
  by_cases can : perms.any fun perm => userCan env w.db s.user perm.toList
  · refine ⟨if s.run then [(w.db, e)] else [], ?_, ?_⟩
    · simp only [guarded, if_pos can]
      exact (formOrRun_calls screen called).print _
    · intro x m
      have same : x = (w.db, e) := by
        split_ifs at m
        · exact List.mem_singleton.mp m
        · cases m
      obtain ⟨perm, listed, allowed⟩ := List.any_eq_true.mp can
      subst same
      exact ⟨rfl, perm, demands ▸ listed, (userCan_iff.mp allowed).2⟩
  · refine ⟨[], ?_, by simp⟩
    simp only [guarded, if_neg can]
    exact ((Calls.refl w).print _).print _

theorem login_calls (s : Session) (w : World) : Calls w (loginPage s w) [] := by
  simp only [loginPage]
  split_ifs
  all_goals first
    | exact (Calls.refl w).print _
    | exact ((Calls.refl w).print _).print _
    | exact Calls.refl w

theorem base_calls (env : Environment) (s : Session) (w : World) : Calls w (basePage env s w) [] := by
  rw [basePage]
  split_ifs
  · exact (Calls.refl w).print _
  · exact ((((((((((Calls.refl w).print _).offer _ _ _).offer _ _ _).offer _ _ _).offer _ _ _).offer
      _ _ _).offer _ _ _).offer _ _ _).print _)

theorem printPermTable_calls (h : Calls w w1 []) : Calls w (printPermTable env w1) [] := by
  rw [printPermTable]
  split
  · exact h
  · exact h.print _

theorem runAddUser_calls (env : Environment) (q : Request) (s : Session) (w : World) :
    Calls w (runAddUser env q s w)
      [(w.db, .userAdd (q.param "name") (q.param "password") (q.param "email") s.user)] :=
  attempt_calls _ _ _ _ _

theorem register_calls (env : Environment) (q : Request) (s : Session) (w : World) :
    Calls w (registerUserPage env q s w) (if s.run then
      [(w.db, .userAdd (q.param "name") (q.param "password") (q.param "email") s.user)] else []) :=
  (formOrRun_calls ((Calls.refl w).print _) (runAddUser_calls env q s w)).print _

theorem invite_calls (env : Environment) (q : Request) (s : Session) (w : World) :
    Calls w (inviteUserPage env q s w) (if s.run then
      [(w.db, .inviteUser (q.param "email") (q.param "name"))] else []) :=
  ((formOrRun_calls ((Calls.refl w).print _) (attempt_calls _ _ _ _ _)).print _).print _

/-- All other pages call only what the user may. -/
theorem page_calls {action : Str} {page : World → World} (m : (action, page) ∈ pages env q s)
    (register : action ≠ "register-user".toList) (invite : action ≠ "invite-user".toList) (w : World) :
    ∃ es, Calls w (page w) es ∧ ∀ x ∈ es, x.1 = w.db ∧ Permitted w.db s.user x.2 := by
  have still {w' : World} (h : Calls w w' []) :
      ∃ es, Calls w w' es ∧ ∀ x ∈ es, x.1 = w.db ∧ Permitted w.db s.user x.2 := ⟨[], h, by simp⟩
  simp only [pages, List.mem_cons, Prod.mk.injEq, List.not_mem_nil, or_false] at m
  rcases m with ⟨-, rfl⟩ | ⟨-, rfl⟩ | ⟨-, rfl⟩ | ⟨same, -⟩ | ⟨-, rfl⟩ | ⟨-, rfl⟩ | ⟨-, rfl⟩ | ⟨same, -⟩ |
    ⟨-, rfl⟩ | ⟨-, rfl⟩ | ⟨-, rfl⟩
  · exact still (login_calls s w)
  · exact still (base_calls env s w)
  · exact still ((Calls.refl w).print _)
  · exact absurd same invite
  · exact still ((Calls.refl w).print _)
  · exact still ((Calls.refl w).print _)
  · exact guarded_calls rfl ((Calls.refl w).print _) (runAddUser_calls env q s w)
  · exact absurd same register
  · exact guarded_calls rfl ((Calls.refl w).print _) (attempt_calls _ _ _ _ _)
  · exact guarded_calls rfl (printPermTable_calls ((Calls.refl w).print _)) (attempt_calls _ _ _ _ _)
  · exact guarded_calls rfl (printPermTable_calls ((Calls.refl w).print _)) (attempt_calls _ _ _ _ _)

/-! ## The law -/

/-- Every call was permitted on the tables it met, and a user without any of the
permissions changes no table and sends no mail. -/
structure Authorized (env : Environment) (db : Database) (q : Request) : Prop where
  permitted : ∀ x ∈ (handle env db q).effects, Permitted x.1 (session env db q).user x.2
  untouched : (∀ perm ∈ ["add-users", "manage-users", "invite-users"],
      ¬ db.Holds (session env db q).user perm.toList) →
    (handle env db q).db.users = db.users ∧ (handle env db q).db.permissions = db.permissions ∧
      (handle env db q).mail = []

/-- A run of one of the two pages that do not check, by a user who may not. -/
def Unchecked (env : Environment) (db : Database) (q : Request) : Prop :=
  (start q).run ∧ ¬ db.Holds (session env db q).user "manage-users".toList ∧
    ((start q).action = "register-user".toList ∧
        ¬ db.Holds (session env db q).user "add-users".toList ∨
      (start q).action = "invite-user".toList ∧
        ¬ db.Holds (session env db q).user "invite-users".toList)

theorem handle_page {action : Str} (page : World → World)
    (m : (action, page) ∈ pages env q (session env db q)) (act : (session env db q).action = action) :
    handle env db q = page ⟨db, [], [], []⟩ := by
  rw [handle, act]
  exact dispatch_mem (pages_distinct env q _) m _

theorem handle_register (act : (session env db q).action = "register-user".toList) :
    Calls ⟨db, [], [], []⟩ (handle env db q) (if (session env db q).run then
      [(db, .userAdd (q.param "name") (q.param "password") (q.param "email")
        (session env db q).user)] else []) := by
  rw [handle_page (registerUserPage env q (session env db q)) (by simp [pages]) act]
  exact register_calls env q _ _

theorem handle_invite (act : (session env db q).action = "invite-user".toList) :
    Calls ⟨db, [], [], []⟩ (handle env db q) (if (session env db q).run then
      [(db, .inviteUser (q.param "email") (q.param "name"))] else []) := by
  rw [handle_page (inviteUserPage env q (session env db q)) (by simp [pages]) act]
  exact invite_calls env q _ _

theorem handle_permitted (checked : ¬ Unchecked env db q) :
    ∃ es, Calls ⟨db, [], [], []⟩ (handle env db q) es ∧
      ∀ x ∈ es, x.1 = db ∧ Permitted db (session env db q).user x.2 := by
  have allowed {e : Effect}
      (run : (session env db q).run = true → Permitted db (session env db q).user e) :
      ∀ x ∈ if (session env db q).run then [(db, e)] else [],
        x.1 = db ∧ Permitted db (session env db q).user x.2 := by
    split_ifs with running
    · simpa using run running
    · simp
  by_cases register : (session env db q).action = "register-user".toList
  · refine ⟨_, handle_register register, allowed fun run => ?_⟩
    obtain ⟨act, run⟩ := (session_form env db (by decide)).mp ⟨register, run⟩
    by_contra forbidden
    obtain ⟨no_add, no_manage⟩ := not_permitted_pair rfl forbidden
    exact checked ⟨run, no_manage, Or.inl ⟨act, no_add⟩⟩
  by_cases invite : (session env db q).action = "invite-user".toList
  · refine ⟨_, handle_invite invite, allowed fun run => ?_⟩
    obtain ⟨act, run⟩ := (session_form env db (by decide)).mp ⟨invite, run⟩
    by_contra forbidden
    obtain ⟨no_invite, no_manage⟩ := not_permitted_pair rfl forbidden
    exact checked ⟨run, no_manage, Or.inr ⟨act, no_invite⟩⟩
  · rcases dispatch_cases (pages_distinct env q (session env db q)) (session env db q).action
      ⟨db, [], [], []⟩ with still | ⟨page, m, same⟩
    · refine ⟨[], ?_, by simp⟩
      rw [handle, still]
      exact Calls.refl _
    · rw [handle, same]
      exact page_calls m register invite _

theorem demands_listed (e : Effect) :
    ∀ perm ∈ e.demands, perm ∈ ["add-users", "manage-users", "invite-users"] := by
  cases e <;> simp [Effect.demands]

/-- The law holds of a request exactly when it is no run of an unchecked page by a user
who may not. -/
theorem authorized_iff (env : Environment) (db : Database) (q : Request) :
    Authorized env db q ↔ ¬ Unchecked env db q := by
  constructor
  · rintro ⟨permitted, -⟩ ⟨run, no_manage, ⟨act, no_add⟩ | ⟨act, no_invite⟩⟩
    · obtain ⟨register, running⟩ := (session_form env db (by decide)).mpr ⟨act, run⟩
      have called := (handle_register register).effects
      rw [if_pos running, List.nil_append] at called
      have holds := (permitted_pair rfl).mp (permitted _ (called ▸ List.mem_singleton_self _))
      exact holds.elim no_add no_manage
    · obtain ⟨invite, running⟩ := (session_form env db (by decide)).mpr ⟨act, run⟩
      have called := (handle_invite invite).effects
      rw [if_pos running, List.nil_append] at called
      have holds := (permitted_pair rfl).mp (permitted _ (called ▸ List.mem_singleton_self _))
      exact holds.elim no_invite no_manage
  · intro checked
    obtain ⟨es, calls, permitted⟩ := handle_permitted checked
    have effects : (handle env db q).effects = es := calls.effects
    refine ⟨fun x m => ?_, fun powerless => ?_⟩
    · obtain ⟨same, allowed⟩ := permitted x (effects ▸ m)
      exact same ▸ allowed
    · have none : es = [] := by
        refine List.eq_nil_iff_forall_not_mem.mpr fun x m => ?_
        obtain ⟨-, perm, demanded, holds⟩ := permitted x m
        exact powerless perm (demands_listed x.2 perm demanded) holds
      obtain ⟨tables, mail⟩ := calls.still none
      exact ⟨congrArg Database.users tables, congrArg Database.permissions tables, mail⟩

def registration : Request where
  params := [("act".toList, "register-user".toList), ("run".toList, "1".toList),
    ("name".toList, "guest".toList), ("password".toList, "password".toList),
    ("email".toList, "a@b".toList)]
  cookie := none

/-- The anonymous user may add nobody, and adds a user. -/
theorem anonymous_registers : (session .quiet .rwb registration).user = anonymous ∧
    (handle .quiet .rwb registration).db.users.length = 3 ∧
    ¬ Authorized .quiet .rwb registration := by
  refine ⟨by decide, by decide, fun h => ?_⟩
  have tables := (h.untouched (by decide)).1
  exact absurd (congrArg List.length tables) (by decide)

end Rwb
