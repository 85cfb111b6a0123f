import EECS339.Lib.Runs
import EECS339.Rwb.Authorization
import EECS339.Rwb.Referrals

/-!
# Runs of requests

What a whole request does to the tables, and what the tables can become as requests follow
one another.
-/
namespace Rwb
open Dispatch
open Runs (bind_eq_ok)

variable {env : Environment} {db db' : Database} {q : Request} {s : Session} {w w' w1 : World}
  {e : Option Effect}

/-! ## The effect of a request -/

/-- Whom the request acts for; the tables have no part in it. -/
def actor (q : Request) : Option Str :=
  if (start q).action = "logout".toList then anonymous
  else if (start q).action = "login".toList then
    if (start q).run then (formCredentials q).1 else anonymous
  else (start q).user

theorem session_user (env : Environment) (db : Database) (q : Request) :
    (session env db q).user = actor q := by
  have credentials := congrArg Prod.fst (session_credentials env db q)
  rw [actor]
  split_ifs at credentials ⊢
  all_goals exact credentials

/-- The name in a cookie has no separator. -/
theorem actor_free (logs : (start q).action ≠ "login".toList) : '/' ∉ (actor q).getD [] := by
  rw [actor, if_neg logs]
  split_ifs
  · decide
  · rw [start]
    cases q.cookie with
    | none => exact (by decide : '/' ∉ anonymous.getD [])
    | some content =>
        by_cases empty : content = []
        · simp [splitCookie, empty]
        · simp only [splitCookie, if_neg empty, Option.getD_some]
          exact Tokens.cut_free '/' content

/-- A name without a separator comes back out of a cookie. -/
theorem splitCookie_name {name : Str} (free : '/' ∉ name) (password : Option Str) :
    (splitCookie (joinCookie (some name) password)).1 = some name := by
  have content : name ++ '/' :: password.getD [] ≠ [] :=
    List.append_ne_nil_of_right_ne_nil name (List.cons_ne_nil _ _)
  change (splitCookie (name ++ '/' :: password.getD [])).1 = some name
  rw [splitCookie, if_neg content, Tokens.cut_append free]

/-- A form that has been filled in, and the permissions of which its page wants one, if it
wants any. -/
structure Command where
  wants : Option (List String)
  effect : Effect

def commands (q : Request) (user : Option Str) : List (Str × Command) :=
  let add : Effect := .userAdd (q.param "name") (q.param "password") (q.param "email") user
  [("invite-user".toList, ⟨none, .inviteUser (q.param "email") (q.param "name")⟩),
    ("add-user".toList, ⟨some ["add-users", "manage-users"], add⟩),
    ("register-user".toList, ⟨none, add⟩),
    ("delete-user".toList, ⟨some ["manage-users"], .userDel (q.param "name")⟩),
    ("add-perm-user".toList,
      ⟨some ["manage-users"], .giveUserPerm (q.param "name") (q.param "permission")⟩),
    ("revoke-perm-user".toList,
      ⟨some ["manage-users"], .revokeUserPerm (q.param "name") (q.param "permission")⟩)]

def Command.Allowed (c : Command) (env : Environment) (db : Database) (user : Option Str) : Bool :=
  c.wants.all fun perms => perms.any fun perm => userCan env db user perm.toList

/-- What the form gets done for the user. -/
def effectFor (env : Environment) (db : Database) (q : Request) (user : Option Str) : Option Effect :=
  ((if (start q).run then (commands q user).lookup (start q).action else none).filter
    (·.Allowed env db user)).map Command.effect

def effect (env : Environment) (db : Database) (q : Request) : Option Effect :=
  effectFor env db q (actor q)

/-- The tables behind a call. -/
def Database.behind (env : Environment) (db : Database) : Effect → Database
  | .userAdd name password email referer => (userAdd env db name password email referer).2
  | .inviteUser .. => db
  | .userDel name => (userDel env db name).2
  | .giveUserPerm name perm => (giveUserPerm env db name perm).2
  | .revokeUserPerm name perm => (revokeUserPerm env db name perm).2

/-- The commands that a call gives to the shell. -/
def mailed (env : Environment) : Effect → List Str
  | .inviteUser email name => [(inviteUser env email name).2]
  | _ => []

/-- From `w` to `w'` exactly this was done. -/
structure Does (env : Environment) (w w' : World) (e : Option Effect) : Prop where
  db : w'.db = e.elim w.db (w.db.behind env)
  effects : w'.effects = w.effects ++ e.toList.map fun e => (w.db, e)
  mail : w'.mail = w.mail ++ e.toList.flatMap (mailed env)

theorem Does.print (h : Does env w w1 e) (out : Html) : Does env w (w1.print out) e :=
  ⟨h.db, h.effects, h.mail⟩

/-- A page without calls does nothing. -/
theorem Calls.does (h : Calls w w' []) : Does env w w' none :=
  ⟨(h.still rfl).1, h.effects, (h.still rfl).2.trans (List.append_nil _).symm⟩

theorem perform_does (env : Environment) (e : Effect) (w : World) :
    Does env w (perform env e w).2 (some e) := by
  cases e with
  | inviteUser email name => exact ⟨rfl, rfl, rfl⟩
  | _ => exact ⟨rfl, rfl, (List.append_nil _).symm⟩

theorem attempt_does (env : Environment) (e : Effect) (complaint : String) (done : Str) (w : World) :
    Does env w (attempt env e complaint done w) (some e) := by
  have performed := perform_does env e w
  rw [attempt]
  cases same : perform env e w with
  | mk error w' =>
      rw [same] at performed
      cases error with
      | some why => exact performed.print _
      | none => exact performed.print _

theorem formOrRun_does {form run : World → World} (screen : Calls w (form w) [])
    (ran : Does env w (run w) e) : Does env w (formOrRun s form run w) (if s.run then e else none) := by
  rw [formOrRun]
  split_ifs
  · exact ran
  · exact screen.does

theorem guarded_does {c : Command} {perms : List String} (wants : c.wants = some perms) {refusal : String}
    {form run : World → World} (screen : Calls w (form w) [])
    (ran : Does env w (run w) (some c.effect)) :
    Does env w (guarded env s perms refusal form run w)
      (if s.run then ((some c).filter (·.Allowed env w.db s.user)).map Command.effect else none) := by
  have allowed : c.Allowed env w.db s.user = perms.any fun perm => userCan env w.db s.user perm.toList := by
    rw [Command.Allowed, wants, Option.all_some]
  rw [guarded]
  by_cases can : perms.any fun perm => userCan env w.db s.user perm.toList
  · rw [Option.filter_some, allowed, if_pos can, if_pos can]
    exact (formOrRun_does screen ran).print _
  · rw [Option.filter_some, allowed, if_neg can, if_neg can, Option.map_none, ite_self]
    exact (((Calls.refl w).print _).print _).does

def commandActs : List Str :=
  ["invite-user".toList, "add-user".toList, "register-user".toList, "delete-user".toList,
    "add-perm-user".toList, "revoke-perm-user".toList]

theorem commands_acts (q : Request) (user : Option Str) :
    (commands q user).map Prod.fst = commandActs := rfl

theorem lookup_none {user : Option Str} {act : Str} (other : act ∉ commandActs) (run : Bool) :
    (if run then (commands q user).lookup act else none) = none := by
  have absent : (commands q user).lookup act = none := by
    refine List.lookup_eq_none_iff.mpr fun p m => ?_
    exact bne_iff_ne.mpr fun same => other (commands_acts q user ▸ List.mem_map.mpr ⟨p, m, same.symm⟩)
  rw [absent, ite_self]

/-- What a login or a logout makes of the form is none of a command. -/
theorem session_command (env : Environment) (db : Database) (q : Request) (user : Option Str) :
    (if (session env db q).run then (commands q user).lookup (session env db q).action else none) =
      if (start q).run then (commands q user).lookup (start q).action else none := by
  by_cases out : (start q).action = "logout".toList
  · rw [session_logout out, out]
    have base : "base".toList ∉ commandActs := by decide
    exact (lookup_none base _).trans (lookup_none (by decide) _).symm
  by_cases logs : (start q).action = "login".toList
  · have login_page : (session env db q).action ∈ ["base".toList, "login".toList] := by
      by_cases run : (start q).run
      · by_cases valid : validUser env db (formCredentials q).1 (formCredentials q).2 = true
        · rw [session_login_ok logs run valid]
          exact List.mem_cons_self
        · rw [session_login_failed logs run valid]
          exact List.mem_cons_of_mem _ List.mem_cons_self
      · rw [session_login_screen logs run]
        exact logs ▸ List.mem_cons_of_mem _ List.mem_cons_self
    have no_command : ∀ act ∈ ["base".toList, "login".toList], act ∉ commandActs := by decide
    rw [logs]
    exact (lookup_none (no_command _ login_page) _).trans (lookup_none (by decide) _).symm
  · rw [session_other out logs]

/-- The page of each command gets it done, and no other page does anything. -/
theorem dispatch_does (env : Environment) (q : Request) (s : Session) (w : World) :
    Does env w (dispatch (pages env q s) s.action w)
      (((if s.run then (commands q s.user).lookup s.action else none).filter
        (·.Allowed env w.db s.user)).map Command.effect) := by
  have at_ {act : Str} {c : Command} (page : World → World) (here : s.action = act)
      (m : (act, page) ∈ pages env q s) (listed : (commands q s.user).lookup act = some c)
      (ran : Does env w (page w)
        (if s.run then ((some c).filter (·.Allowed env w.db s.user)).map Command.effect else none)) :
      Does env w (dispatch (pages env q s) s.action w)
        (((if s.run then (commands q s.user).lookup s.action else none).filter
          (·.Allowed env w.db s.user)).map Command.effect) := by
    rw [here, dispatch_mem (pages_distinct env q s) m, listed]
    split_ifs at ran ⊢
    all_goals exact ran
  by_cases command : s.action ∈ commandActs
  · simp only [commandActs, List.mem_cons, List.not_mem_nil, or_false] at command
    rcases command with act | act | act | act | act | act
    · refine at_ (inviteUserPage env q s) act (by simp [pages]) rfl ?_
      exact ((formOrRun_does ((Calls.refl w).print _) (attempt_does _ _ _ _ _)).print _).print _
    · refine at_ (addUserPage env q s) act (by simp [pages]) rfl ?_
      exact guarded_does rfl ((Calls.refl w).print _) (attempt_does _ _ _ _ _)
    · refine at_ (registerUserPage env q s) act (by simp [pages]) rfl ?_
      exact (formOrRun_does ((Calls.refl w).print _) (attempt_does _ _ _ _ _)).print _
    · refine at_ (deleteUserPage env q s) act (by simp [pages]) rfl ?_
      exact guarded_does rfl ((Calls.refl w).print _) (attempt_does _ _ _ _ _)
    · refine at_ (addPermUserPage env q s) act (by simp [pages]) rfl ?_
      exact guarded_does rfl (printPermTable_calls ((Calls.refl w).print _)) (attempt_does _ _ _ _ _)
    · refine at_ (revokePermUserPage env q s) act (by simp [pages]) rfl ?_
      exact guarded_does rfl (printPermTable_calls ((Calls.refl w).print _)) (attempt_does _ _ _ _ _)
  · rw [lookup_none command]
    refine Calls.does ?_
    rcases dispatch_cases (pages_distinct env q s) s.action w with still | ⟨page, m, same⟩
    · rw [still]
      exact Calls.refl w
    · rw [same]
      simp only [pages, commandActs, List.mem_cons, Prod.mk.injEq, List.not_mem_nil, or_false,
        not_or] at m command
      rcases m with ⟨-, rfl⟩ | ⟨-, rfl⟩ | ⟨-, rfl⟩ | ⟨act, -⟩ | ⟨-, rfl⟩ | ⟨-, rfl⟩ | ⟨act, -⟩ | ⟨act, -⟩ |
        ⟨act, -⟩ | ⟨act, -⟩ | ⟨act, -⟩
      · exact login_calls s w
      · exact base_calls env s w
      · exact (Calls.refl w).print _
      · exact absurd act command.1
      · exact (Calls.refl w).print _
      · exact (Calls.refl w).print _
      · exact absurd act command.2.1
      · exact absurd act command.2.2.1
      · exact absurd act command.2.2.2.1
      · exact absurd act command.2.2.2.2.1
      · exact absurd act command.2.2.2.2.2

/-- A request does its effect and nothing else. -/
theorem handle_does (env : Environment) (db : Database) (q : Request) :
    Does env ⟨db, [], [], []⟩ (handle env db q) (effect env db q) := by
  have wanted : effect env db q =
      ((if (session env db q).run then
          (commands q (session env db q).user).lookup (session env db q).action else none).filter
        (·.Allowed env db (session env db q).user)).map Command.effect := by
    rw [session_command, session_user, effect, effectFor]
  rw [wanted]
  exact dispatch_does env q (session env db q) ⟨db, [], [], []⟩

/-! ## Changes of the tables -/

theorem ofValue_ok {n : Nat} {value : Option Str} {v : Varchar n} (h : Varchar.ofValue n value = .ok v) :
    value = some v.val := by
  cases value with
  | none => cases h
  | some s =>
      rw [Varchar.ofValue] at h
      split_ifs at h
      cases h
      rfl

/-- The values of a row are the ones given. -/
theorem ofValues_ok {name password email referer : Option Str} {u : User}
    (h : User.ofValues name password email referer = .ok u) :
    name = some u.name.val ∧ password = some u.password.val ∧ email = some u.email.val ∧
      referer = some u.referer.val := by
  obtain ⟨name', okName, h⟩ := bind_eq_ok h
  obtain ⟨password', okPassword, h⟩ := bind_eq_ok h
  obtain ⟨email', okEmail, h⟩ := bind_eq_ok h
  obtain ⟨referer', okReferer, h⟩ := bind_eq_ok h
  split_ifs at h
  cases h
  exact ⟨ofValue_ok okName, ofValue_ok okPassword, ofValue_ok okEmail, ofValue_ok okReferer⟩

theorem execute_insertUser_row {name password email referer : Option Str} {n : Nat}
    (ran : db.execute (.insertUser name password email referer) = .ok (n, db')) :
    ∃ u, db.insertUser u = .ok db' ∧ name = some u.name.val ∧ password = some u.password.val ∧
      email = some u.email.val ∧ referer = some u.referer.val := by
  obtain ⟨u, values, ran⟩ := bind_eq_ok ran
  obtain ⟨db1, inserted, ran⟩ := bind_eq_ok ran
  cases ran
  exact ⟨u, inserted, ofValues_ok values⟩

theorem execute_insertPermission {name perm : Option Str} {n : Nat}
    (ran : db.execute (.insertPermission name perm) = .ok (n, db')) :
    ∃ p : Varchar 64 × Varchar 64, db.insertPermission p.1 p.2 = .ok db' ∧ name = some p.1.val ∧
      perm = some p.2.val := by
  obtain ⟨name', okName, ran⟩ := bind_eq_ok ran
  obtain ⟨perm', okPerm, ran⟩ := bind_eq_ok ran
  obtain ⟨db1, inserted, ran⟩ := bind_eq_ok ran
  cases ran
  exact ⟨(name', perm'), inserted, ofValue_ok okName, ofValue_ok okPerm⟩

/-- The request adds the user, who has the acting one as referer. -/
structure Adds (q : Request) (u : User) (db : Database) : Prop where
  run : (start q).run = true
  page : (start q).action = "register-user".toList ∨ (start q).action = "add-user".toList ∧
    (db.Holds (actor q) "add-users".toList ∨ db.Holds (actor q) "manage-users".toList)
  name : q.param "name" = some u.name.val
  password : q.param "password" = some u.password.val
  email : q.param "email" = some u.email.val
  referer : actor q = some u.referer.val

/-- The request runs a page that is only for users who may manage users, and it acts for one. -/
structure Manages (q : Request) (act : String) (db : Database) : Prop where
  run : (start q).run = true
  page : (start q).action = act.toList
  may : db.Holds (actor q) "manage-users".toList

/-- All that a request can make of the tables. -/
inductive Changed (db : Database) (q : Request) : Database → Prop
  | same : Changed db q db
  | added {u : User} {db' : Database} (cause : Adds q u db) (done : db.insertUser u = .ok db') :
      Changed db q db'
  | deleted {db' : Database} (cause : Manages q "delete-user" db)
      (done : db.deleteUser (q.param "name") = .ok db') : Changed db q db'
  | given {p : Varchar 64 × Varchar 64} {db' : Database} (cause : Manages q "add-perm-user" db)
      (name : q.param "name" = some p.1.val) (perm : q.param "permission" = some p.2.val)
      (done : db.insertPermission p.1 p.2 = .ok db') : Changed db q db'
  | revoked (cause : Manages q "revoke-perm-user" db) :
      Changed db q (db.deletePermission (q.param "name") (q.param "permission"))

/-- Behind an effect stand a form that was run and a permission that its page wants. -/
theorem effect_some {e : Effect} (h : effect env db q = some e) : (start q).run = true ∧
    ∃ c, ((start q).action, c) ∈ commands q (actor q) ∧ c.Allowed env db (actor q) = true ∧ c.effect = e := by
  rw [effect, effectFor] at h
  obtain ⟨c, listed, rfl⟩ := Option.map_eq_some_iff.mp h
  obtain ⟨listed, allowed⟩ := Option.filter_eq_some_iff.mp listed
  split_ifs at listed with run
  obtain ⟨front, back, here, -⟩ := List.lookup_eq_some_iff.mp listed
  exact ⟨run, c, here ▸ List.mem_append_right _ List.mem_cons_self, allowed, rfl⟩

theorem allowed_holds {c : Command} {perms : List String} {user : Option Str}
    (wants : c.wants = some perms) (allowed : c.Allowed env db user = true) :
    ∃ perm ∈ perms, db.Holds user perm.toList := by
  rw [Command.Allowed, wants, Option.all_some] at allowed
  obtain ⟨perm, m, can⟩ := List.any_eq_true.mp allowed
  exact ⟨perm, m, (userCan_iff.mp can).2⟩

theorem evalSQL_changed {x : Query} (changed : ∀ n db', db.execute x = .ok (n, db') → Changed db q db') :
    Changed db q (evalSQL env db x).2 := by
  rcases evalSQL_cases env db x with unchanged | ⟨n, db', ran, done⟩
  · rw [unchanged]
    exact .same
  · rw [done]
    exact changed n db' ran

theorem userAdd_changed
    (cause : ∀ u : User, q.param "name" = some u.name.val → q.param "password" = some u.password.val →
      q.param "email" = some u.email.val → actor q = some u.referer.val → Adds q u db) :
    Changed db q (userAdd env db (q.param "name") (q.param "password") (q.param "email") (actor q)).2 := by
  refine evalSQL_changed fun n db' ran => ?_
  obtain ⟨u, inserted, name, password, email, referer⟩ := execute_insertUser_row ran
  exact .added (cause u name password email referer) inserted

theorem handle_changed (env : Environment) (db : Database) (q : Request) :
    Changed db q (handle env db q).db := by
  rw [(handle_does env db q).db]
  cases done : effect env db q with
  | none => exact .same
  | some e =>
      obtain ⟨run, c, listed, allowed, rfl⟩ := effect_some done
      simp only [commands, List.mem_cons, Prod.mk.injEq, List.not_mem_nil, or_false] at listed
      have manages {act : String} (page : (start q).action = act.toList)
          (wants : c.wants = some ["manage-users"]) : Manages q act db := by
        obtain ⟨perm, m, holds⟩ := allowed_holds wants allowed
        exact ⟨run, page, List.mem_singleton.mp m ▸ holds⟩
      rcases listed with ⟨page, rfl⟩ | ⟨page, rfl⟩ | ⟨page, rfl⟩ | ⟨page, rfl⟩ | ⟨page, rfl⟩ | ⟨page, rfl⟩
      · exact .same
      · obtain ⟨perm, m, holds⟩ := allowed_holds rfl allowed
        refine userAdd_changed fun u name password email referer => ?_
        refine ⟨run, Or.inr ⟨page, ?_⟩, name, password, email, referer⟩
        rcases List.mem_cons.mp m with rfl | m
        · exact Or.inl holds
        · exact Or.inr (List.mem_singleton.mp m ▸ holds)
      · exact userAdd_changed fun u name password email referer =>
          ⟨run, Or.inl page, name, password, email, referer⟩
      · exact evalSQL_changed fun n db' ran =>
          .deleted (manages page rfl) (execute_deleteUser ran)
      · refine evalSQL_changed fun n db' ran => ?_
        obtain ⟨p, inserted, name, perm⟩ := execute_insertPermission ran
        exact .given (manages page rfl) name perm inserted
      · refine evalSQL_changed fun n db' ran => ?_
        cases ran
        exact .revoked (manages page rfl)

/-! ## What each statement leaves -/

theorem insertUser_rows {u : User} (h : db.insertUser u = .ok db') :
    db'.users = u :: db.users ∧ db'.permissions = db.permissions := by
  rw [Database.insertUser] at h
  split_ifs at h
  cases h
  exact ⟨rfl, rfl⟩

section Causes

variable {u : User} {p : Varchar 64 × Varchar 64}

end Causes

/-- Without a user who may manage users, rows of users only come. -/
theorem Changed.kept (h : Changed db q db') (nobody : ∀ act ≠ "login", ¬ Manages q act db) :
    db'.permissions = db.permissions ∧ db.users <:+ db'.users := by
  cases h with
  | same => exact ⟨rfl, List.suffix_rfl⟩
  | added cause done =>
      obtain ⟨users, permissions⟩ := insertUser_rows done
      exact ⟨permissions, users ▸ List.suffix_cons _ _⟩
  | deleted cause done => exact absurd cause (nobody _ (by decide))
  | given cause name perm done => exact absurd cause (nobody _ (by decide))
  | revoked cause => exact absurd cause (nobody _ (by decide))

theorem Database.Holds.congr (same : db'.permissions = db.permissions) (user : Option Str) (perm : Str) :
    db'.Holds user perm ↔ db.Holds user perm := by
  rw [Database.Holds, Database.Holds, same]

/-! ## Runs -/

/-- The tables behind a request. -/
def Database.serve (db : Database) (r : Environment × Request) : Database := (handle r.1 db r.2).db

end Rwb
