import EECS339.Rwb.Cookies
import EECS339.Rwb.RequestRuns

/-!
# Browsers

Any number of browsers visit the site, in any order, and each sends the session cookie that it
keeps. Behind the cookies stands a desk at which they sign in and out.
-/
namespace Rwb

variable {env : Environment} {db db' : Database} {q : Request}

/-! ## The site and its browsers -/

/-- What happens: a browser requests a page, or its cookie gets too old. -/
inductive Visit where
  | request (browser : Nat) (env : Environment) (params : List (Str × Str))
  | expire (browser : Nat)

/-- The tables, the cookie that each browser keeps, the calls and the commands so far. -/
structure Web where
  db : Database
  jar : Nat → Option Str
  effects : List (Database × Effect)
  mail : List Str

/-- What a browser keeps of a response: a cookie replaces the one there was, and an expired one
removes it. -/
def Session.kept (s : Session) (jar : Option Str) : Option Str :=
  match s.outputcookiecontent with
  | none => jar
  | some content => if s.deletecookie then none else some content

def Web.next (w : Web) : Visit → Web
  | .request browser env params =>
      let q : Request := ⟨params, w.jar browser⟩
      let world := handle env w.db q
      { db := world.db
        jar := Function.update w.jar browser ((session env w.db q).kept (w.jar browser))
        effects := w.effects ++ world.effects
        mail := w.mail ++ world.mail }
  | .expire browser => { w with jar := Function.update w.jar browser none }

def Web.new (db : Database) : Web := ⟨db, fun _ => none, [], []⟩

def Web.run (w : Web) (visits : List Visit) : Web := visits.foldl Web.next w

/-! ## The desk -/

/-- The tables and the account with which each browser has signed in. -/
structure Desk where
  db : Database
  who : Nat → Option (Str × Str)
  effects : List (Database × Effect)
  mail : List Str

/-- Whom a browser acts for. -/
def Desk.user (d : Desk) (browser : Nat) : Option Str :=
  match d.who browser with
  | some (user, _) => some user
  | none => anonymous

/-- Signing in takes an account. -/
def Desk.signIn (d : Desk) (browser : Nat) (env : Environment) : Option Str × Option Str → Desk
  | (some user, some password) =>
      if validUser env d.db (some user) (some password) then
        { d with who := Function.update d.who browser (some (user, password)) }
      else d
  | _ => d

def Desk.order (d : Desk) (env : Environment) : Option Effect → Desk
  | some e =>
      { d with
        db := d.db.behind env e
        effects := d.effects ++ [(d.db, e)]
        mail := d.mail ++ mailed env e }
  | none => d

def Desk.next (d : Desk) : Visit → Desk
  | .request browser env params =>
      let form : Request := ⟨params, none⟩
      if (start form).action = "logout".toList then { d with who := Function.update d.who browser none }
      else if (start form).action = "login".toList then
        if (start form).run then d.signIn browser env (formCredentials form) else d
      else d.order env (effectFor env d.db form (d.user browser))
  | .expire browser => { d with who := Function.update d.who browser none }

def Desk.new (db : Database) : Desk := ⟨db, fun _ => none, [], []⟩

def Desk.run (d : Desk) (visits : List Visit) : Desk := visits.foldl Desk.next d

/-! ## The cookies stand for the desk -/

structure Refines (w : Web) (d : Desk) : Prop where
  db : w.db = d.db
  effects : w.effects = d.effects
  mail : w.mail = d.mail
  jar : ∀ browser, w.jar browser = (d.who browser).map fun a => joinCookie (some a.1) (some a.2)
  free : ∀ browser user password, d.who browser = some (user, password) → '/' ∉ user

/-- The parameters are a login form that is to be run, with a name and a password. -/
structure Visit.Form (params : List (Str × Str)) (user password : Str) : Prop where
  logs : (start ⟨params, none⟩).action = "login".toList
  run : (start ⟨params, none⟩).run
  form : formCredentials ⟨params, none⟩ = (some user, some password)

instance (params : List (Str × Str)) (user password : Str) : Decidable (Visit.Form params user password) :=
  decidable_of_iff ((start ⟨params, none⟩).action = "login".toList ∧ (start ⟨params, none⟩).run ∧
      formCredentials ⟨params, none⟩ = (some user, some password))
    ⟨fun h => ⟨h.1, h.2.1, h.2.2⟩, fun h => ⟨h.logs, h.run, h.form⟩⟩

/-- No login form has a name that the cookie takes apart. -/
def Visit.Plain : Visit → Prop
  | .request _ _ params => ∀ user password, Form params user password → '/' ∉ user
  | .expire _ => True

section Step

variable {w : Web} {d : Desk} {browser : Nat} {params : List (Str × Str)}

/-- A visit without an effect that leaves browser and desk agreeing on who signed in. -/
theorem Refines.idle (h : Refines w d) {content : Option Str} {account : Option (Str × Str)}
    (nothing : effect env w.db ⟨params, w.jar browser⟩ = none)
    (kept : (session env w.db ⟨params, w.jar browser⟩).kept (w.jar browser) = content)
    (same : content = account.map fun a => joinCookie (some a.1) (some a.2))
    (free : ∀ user password, account = some (user, password) → '/' ∉ user) :
    Refines (w.next (.request browser env params))
      { d with who := Function.update d.who browser account } := by
  have does := handle_does env w.db ⟨params, w.jar browser⟩
  rw [nothing] at does
  refine ⟨does.db.trans h.db, ?_, ?_, fun b => ?_, fun b user password at_ => ?_⟩
  · change w.effects ++ (handle env w.db ⟨params, w.jar browser⟩).effects = d.effects
    rw [does.effects, ← h.effects]
    exact List.append_nil _
  · change w.mail ++ (handle env w.db ⟨params, w.jar browser⟩).mail = d.mail
    rw [does.mail, ← h.mail]
    exact List.append_nil _
  · change Function.update w.jar browser _ b = (Function.update d.who browser account b).map _
    rw [kept]
    by_cases here : b = browser
    · rw [here, Function.update_self, Function.update_self, same]
    · rw [Function.update_of_ne here, Function.update_of_ne here, h.jar]
  · change Function.update d.who browser account b = some (user, password) at at_
    by_cases here : b = browser
    · rw [here, Function.update_self] at at_
      exact free user password at_
    · rw [Function.update_of_ne here] at at_
      exact h.free b user password at_

theorem effect_none (other : (start q).action ∉ commandActs) : effect env db q = none := by
  rw [effect, effectFor, lookup_none other]
  rfl

theorem kept_start (q : Request) : (start q).kept q.cookie = q.cookie := by
  simp only [start, Session.kept]
  cases q.cookie <;> rfl

theorem Refines.user (h : Refines w d) (browser : Nat) :
    (start ⟨params, w.jar browser⟩).user = d.user browser := by
  rw [start, Desk.user, h.jar]
  cases who : d.who browser with
  | none => rfl
  | some a => exact splitCookie_name (h.free browser a.1 a.2 who) _

theorem Refines.logout (h : Refines w d) (out : (start ⟨params, none⟩).action = "logout".toList) :
    Refines (w.next (.request browser env params)) (d.next (.request browser env params)) := by
  have nothing : effect env w.db ⟨params, w.jar browser⟩ = none := effect_none (out ▸ by decide)
  have out' : (start ⟨params, w.jar browser⟩).action = "logout".toList := out
  simp only [Desk.next, if_pos out]
  refine h.idle nothing ?_ rfl nofun
  rw [session_logout out']
  cases w.jar browser <;> rfl

/-- A visit that leaves the cookie as it is and has no effect. -/
theorem Refines.stay (h : Refines w d) (nothing : effect env w.db ⟨params, w.jar browser⟩ = none)
    (kept : (session env w.db ⟨params, w.jar browser⟩).kept (w.jar browser) = w.jar browser) :
    Refines (w.next (.request browser env params)) d := by
  have idle := h.idle nothing kept (h.jar browser) (h.free browser)
  rw [Function.update_eq_self] at idle
  exact idle

theorem Refines.login (h : Refines w d) (plain : (Visit.request browser env params).Plain)
    (logs : (start ⟨params, none⟩).action = "login".toList) :
    Refines (w.next (.request browser env params)) (d.next (.request browser env params)) := by
  have nothing : effect env w.db ⟨params, w.jar browser⟩ = none := effect_none (logs ▸ by decide)
  have logs' : (start ⟨params, w.jar browser⟩).action = "login".toList := logs
  have out : ¬ (start ⟨params, none⟩).action = "logout".toList := logs ▸ by decide
  simp only [Desk.next, if_neg out, if_pos logs]
  by_cases run : (start ⟨params, none⟩).run
  · rw [if_pos run]
    by_cases valid : validUser env w.db (formCredentials ⟨params, w.jar browser⟩).1
        (formCredentials ⟨params, w.jar browser⟩).2 = true
    · obtain ⟨user, password, form, valid'⟩ := logs_of_valid logs' run valid
      have credentials : formCredentials ⟨params, none⟩ = (some user, some password) := form.form
      rw [credentials, Desk.signIn, if_pos (h.db ▸ valid')]
      refine h.idle nothing ?_ rfl fun user' password' same => ?_
      · rw [session_login_ok logs' run valid, form.form]
        rfl
      · cases same
        exact plain user password ⟨logs, run, credentials⟩
    · have refused : d.signIn browser env (formCredentials ⟨params, none⟩) = d := by
        change ¬ validUser env w.db (formCredentials ⟨params, none⟩).1
          (formCredentials ⟨params, none⟩).2 = true at valid
        cases form : formCredentials ⟨params, none⟩ with
        | mk user password =>
            rw [form, h.db] at valid
            cases user with
            | none => rfl
            | some user =>
                cases password with
                | none => rfl
                | some password => exact if_neg valid
      rw [refused]
      refine h.stay nothing ?_
      rw [session_login_failed logs' run valid]
      exact kept_start ⟨params, w.jar browser⟩
  · rw [if_neg run]
    refine h.stay nothing ?_
    rw [session_login_screen logs' run]
    exact kept_start ⟨params, w.jar browser⟩

theorem Refines.page (h : Refines w d) (out : (start ⟨params, none⟩).action ≠ "logout".toList)
    (logs : (start ⟨params, none⟩).action ≠ "login".toList) :
    Refines (w.next (.request browser env params)) (d.next (.request browser env params)) := by
  have acts : actor ⟨params, w.jar browser⟩ = d.user browser :=
    ((if_neg out).trans (if_neg logs)).trans (h.user browser)
  have other : session env w.db ⟨params, w.jar browser⟩ = start ⟨params, w.jar browser⟩ :=
    session_other out logs
  have kept := (congrArg (·.kept (w.jar browser)) other).trans (kept_start ⟨params, w.jar browser⟩)
  have wanted : effect env w.db ⟨params, w.jar browser⟩ =
      effectFor env d.db ⟨params, none⟩ (d.user browser) := by
    rw [effect, acts, h.db]
    rfl
  simp only [Desk.next, if_neg out, if_neg logs]
  cases done : effectFor env d.db ⟨params, none⟩ (d.user browser) with
  | none => exact h.stay (wanted.trans done) kept
  | some e =>
      have does := handle_does env w.db ⟨params, w.jar browser⟩
      rw [wanted, done] at does
      refine ⟨?_, ?_, ?_, fun b => ?_, h.free⟩
      · change (handle env w.db ⟨params, w.jar browser⟩).db = d.db.behind env e
        rw [does.db, h.db]
        rfl
      · change w.effects ++ (handle env w.db ⟨params, w.jar browser⟩).effects = _
        rw [does.effects, h.effects, h.db]
        rfl
      · change w.mail ++ (handle env w.db ⟨params, w.jar browser⟩).mail = _
        rw [does.mail, h.mail]
        exact congrArg (d.mail ++ ·) (List.append_nil _)
      · change Function.update w.jar browser _ b = (d.who b).map _
        rw [kept, Function.update_eq_self]
        exact h.jar b

end Step

theorem Refines.next {w : Web} {d : Desk} (h : Refines w d) {visit : Visit} (plain : visit.Plain) :
    Refines (w.next visit) (d.next visit) := by
  cases visit with
  | expire browser =>
      refine ⟨h.db, h.effects, h.mail, fun b => ?_, fun b user password at_ => ?_⟩
      · change Function.update w.jar browser none b = (Function.update d.who browser none b).map _
        by_cases here : b = browser
        · rw [here, Function.update_self, Function.update_self]
          rfl
        · rw [Function.update_of_ne here, Function.update_of_ne here, h.jar]
      · change Function.update d.who browser none b = some (user, password) at at_
        by_cases here : b = browser
        · rw [here, Function.update_self] at at_
          cases at_
        · rw [Function.update_of_ne here] at at_
          exact h.free b user password at_
  | request browser env params =>
      by_cases out : (start ⟨params, none⟩).action = "logout".toList
      · exact h.logout out
      by_cases logs : (start ⟨params, none⟩).action = "login".toList
      · exact h.login plain logs
      · exact h.page out logs

theorem Refines.run {w : Web} {d : Desk} (h : Refines w d) {visits : List Visit}
    (plain : ∀ v ∈ visits, v.Plain) : Refines (w.run visits) (d.run visits) :=
  List.foldl_rel h fun v m _ _ related => related.next (plain v m)

theorem Refines.new (db : Database) : Refines (.new db) (.new db) :=
  ⟨rfl, rfl, rfl, fun _ => rfl, nofun⟩

/-- Whatever the browsers do, in any order, the site does what the desk would. -/
theorem site_refines_desk (db : Database) (visits : List Visit) (plain : ∀ v ∈ visits, v.Plain) :
    let w := (Web.new db).run visits
    let d := (Desk.new db).run visits
    w.db = d.db ∧ w.effects = d.effects ∧ w.mail = d.mail ∧
      ∀ browser, w.jar browser = (d.who browser).map fun a => joinCookie (some a.1) (some a.2) := by
  intro w d
  have h : Refines w d := (Refines.new db).run plain
  exact ⟨h.db, h.effects, h.mail, h.jar⟩

/-- A guest registers and signs in, and another browser tries to delete him. -/
def smallVisits : List Visit :=
  [.request 0 .quiet registration.params,
    .request 0 .quiet [("act".toList, "login".toList), ("run".toList, "1".toList),
      ("user".toList, "guest".toList), ("password".toList, "password".toList)],
    .request 1 .quiet [("act".toList, "delete-user".toList), ("run".toList, "1".toList),
      ("name".toList, "guest".toList)]]

theorem smallVisits_plain : ∀ v ∈ smallVisits, v.Plain := by
  intro v m
  simp only [smallVisits, List.mem_cons, List.not_mem_nil, or_false] at m
  rcases m with rfl | rfl | rfl
  · exact fun user password form => absurd form.logs (by decide)
  · intro user password form
    have guest : formCredentials ⟨[("act".toList, "login".toList), ("run".toList, "1".toList),
      ("user".toList, "guest".toList), ("password".toList, "password".toList)], none⟩ =
        (some "guest".toList, some "password".toList) := by decide
    cases guest.symm.trans form.form
    decide
  · exact fun user password form => absurd form.logs (by decide)

theorem site_refines_desk_small :
    let w := (Web.new .rwb).run smallVisits
    let d := (Desk.new .rwb).run smallVisits
    d.who 0 = some ("guest".toList, "password".toList) ∧ w.db = d.db ∧ w.effects = d.effects ∧
      w.mail = d.mail ∧
      ∀ browser, w.jar browser = (d.who browser).map fun a => joinCookie (some a.1) (some a.2) :=
  ⟨by decide, site_refines_desk .rwb smallVisits smallVisits_plain⟩

/-! ## Passwords protect -/

/-- No login form has the password of a user who may manage users. -/
def Visit.Secret (db : Database) : Visit → Prop
  | .request _ _ params => ∀ u ∈ db.users, db.Holds (some u.name.val) "manage-users".toList →
      ¬ Form params u.name.val u.password.val
  | .expire _ => True

/-- Of the tables only new users are new, and no manager has signed in. -/
structure Guarded (db : Database) (w : Web) (d : Desk) : Prop where
  refines : Refines w d
  permissions : w.db.permissions = db.permissions
  users : db.users <:+ w.db.users
  who : ∀ browser user password, d.who browser = some (user, password) →
    ¬ db.Holds (some user) "manage-users".toList

/-- Whoever has signed in was so before, or has just shown the password of an account. -/
theorem Desk.who_next {d : Desk} {visit : Visit} {browser : Nat} {user password : Str}
    (h : (d.next visit).who browser = some (user, password)) : d.who browser = some (user, password) ∨
      ∃ env params, visit = .request browser env params ∧ Visit.Form params user password ∧
        validUser env d.db (some user) (some password) = true := by
  have updated {b : Nat} {account : Option (Str × Str)}
      (at_ : Function.update d.who b account browser = some (user, password)) :
      d.who browser = some (user, password) ∨ browser = b ∧ account = some (user, password) := by
    by_cases here : browser = b
    · rw [here, Function.update_self] at at_
      exact Or.inr ⟨here, at_⟩
    · rw [Function.update_of_ne here] at at_
      exact Or.inl at_
  cases visit with
  | expire b => exact (updated h).imp_right fun signed => nomatch signed.2
  | request b env params =>
      simp only [Desk.next] at h
      split_ifs at h with out logs run
      · exact (updated h).imp_right fun signed => nomatch signed.2
      · cases form : formCredentials ⟨params, none⟩ with
        | mk user' password' =>
            rw [form] at h
            cases user' with
            | none => exact Or.inl h
            | some user' =>
                cases password' with
                | none => exact Or.inl h
                | some password' =>
                    rw [Desk.signIn] at h
                    split_ifs at h with valid
                    · refine (updated h).imp_right fun signed => ?_
                      obtain ⟨rfl, same⟩ := signed
                      cases same
                      exact ⟨env, params, rfl, ⟨logs, run, form⟩, valid⟩
                    · exact Or.inl h
      · exact Or.inl h
      · refine Or.inl (h ▸ ?_)
        cases effectFor env d.db ⟨params, none⟩ (d.user b) <;> rfl

section Guard

variable {w : Web} {d : Desk} (anon : ¬ db.Holds anonymous "manage-users".toList)
include anon

/-- No page that manages users is run, since nobody has signed in who may. -/
theorem Guarded.nobody (h : Guarded db w d) {browser : Nat} {params : List (Str × Str)} {act : String}
    (other : act ≠ "login") : ¬ Manages ⟨params, w.jar browser⟩ act w.db := by
  intro manages
  have may := (Database.Holds.congr h.permissions _ _).mp manages.may
  have logs : (start ⟨params, w.jar browser⟩).action ≠ "login".toList := fun page =>
    other (String.toList_inj.mp (manages.page.symm.trans page))
  rw [actor, if_neg logs] at may
  split_ifs at may
  · exact anon may
  · rw [h.refines.user, Desk.user] at may
    cases who : d.who browser with
    | none =>
        rw [who] at may
        exact anon may
    | some a =>
        rw [who] at may
        exact h.who browser a.1 a.2 who may

/-- The row of a manager has stayed, and with it his password. -/
theorem Guarded.next (h : Guarded db w d) {visit : Visit} (plain : visit.Plain) (secret : visit.Secret db) :
    Guarded db (w.next visit) (d.next visit) := by
  have tables : (w.next visit).db.permissions = db.permissions ∧ db.users <:+ (w.next visit).db.users := by
    cases visit with
    | expire browser => exact ⟨h.permissions, h.users⟩
    | request browser env params =>
        obtain ⟨permissions, users⟩ := (handle_changed env w.db ⟨params, w.jar browser⟩).kept
          fun act other => h.nobody anon other
        exact ⟨permissions.trans h.permissions, h.users.trans users⟩
  refine ⟨h.refines.next plain, tables.1, tables.2, fun browser user password who holds => ?_⟩
  rcases Desk.who_next who with before | ⟨env, params, rfl, form, valid⟩
  · exact h.who browser user password before holds
  · rw [← h.refines.db] at valid
    obtain ⟨-, r, there, name, word⟩ := validUser_iff.mp valid
    obtain ⟨p, m, owner, -⟩ := id holds
    obtain ⟨u, mu, same⟩ := List.mem_map.mp (db.perm_user p m)
    have one : r = u := by
      refine List.inj_on_of_nodup_map w.db.user_key there (h.users.mem mu) (Subtype.ext ?_)
      exact Option.some.inj (name.trans (owner.symm.trans (congrArg (fun v => some v.val) same.symm)))
    subst one
    cases Option.some.inj name
    cases Option.some.inj word
    exact secret r mu holds form

end Guard

end Rwb
