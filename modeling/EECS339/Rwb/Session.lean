import EECS339.Lib.Tokens
import EECS339.Rwb.Database

/-!
# Sessions of `rwb`

Whom a request acts for, and which session cookie it is answered with. The debug
parameter and cookie are left out: they only add output.
-/
namespace Rwb
open Tokens

/-- The parameters of a request in their order, and the content of its session cookie. -/
structure Request where
  params : List (Str × Str)
  cookie : Option Str

namespace Request

/-- `param` in scalar context: the first value. -/
def param (q : Request) (name : String) : Option Str := q.params.lookup name.toList

/-- `param` in list context: every value, so none for a missing parameter. -/
def paramList (q : Request) (name : String) : List Str :=
  (q.params.filter fun p => p.1 = name.toList).map Prod.snd

end Request

/-! ## Numbers -/

def isSpace (c : Char) : Bool := c = ' ' || ('\t' ≤ c && c ≤ '\r')

def digits (s : Str) : Nat × Nat :=
  let ds := s.takeWhile Char.isDigit
  (ds.foldl (fun n c => 10 * n + (c.toNat - 48)) 0, ds.length)

def exponent : Str → Int
  | e :: s =>
      if e = 'e' ∨ e = 'E' then
        match s with
        | '-' :: s => -((digits s).1 : Int)
        | '+' :: s => (digits s).1
        | s => (digits s).1
      else 0
  | [] => 0

/-- `$s == 1`: the number at the front of the string has 1 as its nearest double. -/
def numEqOne (s : Str) : Bool :=
  let s := s.dropWhile isSpace
  let s := if s.head? = some '+' then s.tail else s
  let (whole, n) := digits s
  let s := s.drop n
  let (fraction, k) := if s.head? = some '.' then digits s.tail else (0, 0)
  let s := if s.head? = some '.' then s.drop (k + 1) else s
  let e := if n + k = 0 then 0 else exponent s
  let num := (whole * 10 ^ k + fraction) * 10 ^ e.toNat
  let den := 10 ^ (k + (-e).toNat)
  (2 ^ 54 - 1) * den ≤ num * 2 ^ 54 && num * 2 ^ 53 ≤ (2 ^ 53 + 1) * den

theorem numEqOne_one : numEqOne ['1'] = true := by decide

/-! ## Identity -/

/-- The two names in `split(/\//, $content)`; nothing comes out of the empty string. -/
def splitCookie (content : Str) : Option Str × Option Str :=
  if content = [] then (none, none)
  else (some (cut '/' content).1, (cut '/' content).2.map fun rest => (cut '/' rest).1)

/-- `join("/",$user,$password)`. -/
def joinCookie (user password : Option Str) : Str := user.getD [] ++ '/' :: password.getD []

structure Session where
  action : Str
  run : Bool
  user : Option Str
  password : Option Str
  outputcookiecontent : Option Str
  deletecookie : Bool
  logincomplain : Bool

def anonymous : Option Str := some "anon".toList

def anonanon : Option Str := some "anonanon".toList

/-- What the form asks for, and the credentials of the cookie or anonymous ones. -/
def start (q : Request) : Session where
  action := (q.param "act").getD "base".toList
  run := if (q.param "act").isSome then ((q.param "run").map numEqOne).getD false else true
  user := match q.cookie with | some content => (splitCookie content).1 | none => anonymous
  password := match q.cookie with | some content => (splitCookie content).2 | none => anonanon
  outputcookiecontent := q.cookie
  deletecookie := false
  logincomplain := false

/-- `(param('user'),param('password'))` assigned to two variables. -/
def formCredentials (q : Request) : Option Str × Option Str :=
  let values := q.paramList "user" ++ q.paramList "password"
  (values[0]?, values[1]?)

def login (env : Environment) (db : Database) (q : Request) (s : Session) : Session :=
  if s.action = "login".toList then
    if s.run then
      let (user, password) := formCredentials q
      if validUser env db user password then
        { s with user, password, outputcookiecontent := some (joinCookie user password),
                 action := "base".toList, run := true }
      else { s with user, password, logincomplain := true, action := "login".toList, run := false }
    else { s with user := anonymous, password := anonanon }
  else s

def logout (s : Session) : Session :=
  if s.action = "logout".toList then
    { s with deletecookie := true, action := "base".toList, user := anonymous,
             password := anonanon, run := true }
  else s

def session (env : Environment) (db : Database) (q : Request) : Session :=
  logout (login env db q (start q))

variable {env : Environment} {db : Database} {q : Request}

/-! ## The paths to a session -/

theorem session_other (out : (start q).action ≠ "logout".toList)
    (logs : (start q).action ≠ "login".toList) : session env db q = start q := by
  simp only [session, login, if_neg logs, logout, if_neg out]

theorem session_logout (out : (start q).action = "logout".toList) :
    session env db q = { start q with
      deletecookie := true, action := "base".toList, user := anonymous, password := anonanon,
      run := true } := by
  have logs : ¬ (start q).action = "login".toList := out ▸ by decide
  simp only [session, login, if_neg logs, logout, if_pos out]

section Login

variable (logs : (start q).action = "login".toList)
include logs

theorem session_login_screen (run : ¬ (start q).run) :
    session env db q = { start q with user := anonymous, password := anonanon } := by
  have out : ¬ (start q).action = "logout".toList := logs ▸ by decide
  simp only [session, login, if_pos logs, if_neg run, logout, if_neg out]

theorem session_login_ok (run : (start q).run)
    (valid : validUser env db (formCredentials q).1 (formCredentials q).2 = true) :
    session env db q = { start q with
      user := (formCredentials q).1, password := (formCredentials q).2,
      outputcookiecontent := some (joinCookie (formCredentials q).1 (formCredentials q).2),
      action := "base".toList, run := true } := by
  have out : ¬ "base".toList = "logout".toList := by decide
  simp only [session, login, if_pos logs, if_pos run, if_pos valid, logout, if_neg out]

theorem session_login_failed (run : (start q).run)
    (invalid : ¬ validUser env db (formCredentials q).1 (formCredentials q).2 = true) :
    session env db q = { start q with
      user := (formCredentials q).1, password := (formCredentials q).2, logincomplain := true,
      action := "login".toList, run := false } := by
  have out : ¬ "login".toList = "logout".toList := by decide
  simp only [session, login, if_pos logs, if_pos run, if_neg invalid, logout, if_neg out]

end Login

/-! ## The cookie of a login -/

theorem splitCookie_join {user password : Str} :
    splitCookie (joinCookie (some user) (some password)) = (some user, some password) ↔
      '/' ∉ user ∧ '/' ∉ password := by
  have content : user ++ '/' :: password ≠ [] := by simp
  have split : splitCookie (joinCookie (some user) (some password)) =
      (some (cut '/' (user ++ '/' :: password)).1,
        (cut '/' (user ++ '/' :: password)).2.map fun rest => (cut '/' rest).1) := if_neg content
  rw [split, Prod.mk.injEq, Option.some.injEq]
  constructor
  · rintro ⟨first, second⟩
    have free : '/' ∉ user := first ▸ cut_free '/' (user ++ '/' :: password)
    rw [cut_append free, Option.map_some, Option.some.injEq] at second
    exact ⟨free, second ▸ cut_free '/' password⟩
  · rintro ⟨free, free'⟩
    rw [cut_append free, Option.map_some, cut_none free']
    exact ⟨rfl, rfl⟩

structure Request.Logs (q : Request) (user password : Str) : Prop where
  action : (start q).action = "login".toList
  run : (start q).run = true
  form : formCredentials q = (some user, some password)

theorem cookie_of_login {user password : Str} (logs : q.Logs user password)
    (valid : validUser env db (some user) (some password) = true) :
    (session env db q).outputcookiecontent = some (joinCookie (some user) (some password)) := by
  rw [session_login_ok logs.action logs.run (by rw [logs.form]; exact valid), logs.form]

/-- The cookie of a login, sent back with any later request, means the same account. -/
def CookieReturns (env : Environment) (db : Database) (user password : Str) : Prop :=
  ∀ attempt later : Request, attempt.Logs user password →
    later.cookie = (session env db attempt).outputcookiecontent →
      (start later).user = some user ∧ (start later).password = some password

theorem cookieReturns_iff {user password : Str}
    (valid : validUser env db (some user) (some password) = true) :
    CookieReturns env db user password ↔ '/' ∉ user ∧ '/' ∉ password := by
  rw [← splitCookie_join, Prod.ext_iff]
  constructor
  · intro returns
    let attempt : Request := ⟨[("act".toList, "login".toList), ("run".toList, "1".toList),
      ("user".toList, user), ("password".toList, password)], none⟩
    have logs : attempt.Logs user password := by
      refine ⟨rfl, ?_, rfl⟩
      simp [attempt, start, Request.param, List.lookup, numEqOne_one]
    exact returns attempt ⟨[], some (joinCookie (some user) (some password))⟩ logs
      (cookie_of_login logs valid).symm
  · intro same attempt later logs sent
    rw [cookie_of_login logs valid] at sent
    simp only [start, sent]
    exact same

/-- Cookies of logins mean the account they were made for, and different users are
never confused. -/
structure CookieLaw (env : Environment) (db : Database) : Prop where
  returns : ∀ user password, validUser env db (some user) (some password) = true →
    CookieReturns env db user password
  distinct : ∀ user password user' password', user ≠ user' →
    validUser env db (some user) (some password) = true →
    validUser env db (some user') (some password') = true →
      (splitCookie (joinCookie (some user) (some password))).1 ≠
        (splitCookie (joinCookie (some user') (some password'))).1

/-- An account survives the cookie exactly when neither its name nor its password
contains the separator, and the law holds where that is so for all of them. -/
theorem cookieLaw_iff (env : Environment) (db : Database) :
    (∀ user password, validUser env db (some user) (some password) = true →
      (CookieReturns env db user password ↔ '/' ∉ user ∧ '/' ∉ password)) ∧
    (CookieLaw env db ↔ ∀ user password, validUser env db (some user) (some password) = true →
      '/' ∉ user ∧ '/' ∉ password) := by
  refine ⟨fun user password valid => cookieReturns_iff valid, ?_, ?_⟩
  · exact fun law user password valid => (cookieReturns_iff valid).mp (law.returns user password valid)
  · intro free
    refine ⟨fun user password valid => (cookieReturns_iff valid).mpr (free user password valid), ?_⟩
    intro user password user' password' ne valid valid' same
    have decoded {u p : Str} (v : validUser env db (some u) (some p) = true) :
        splitCookie (joinCookie (some u) (some p)) = (some u, some p) :=
      splitCookie_join.mpr (free u p v)
    rw [decoded valid, decoded valid'] at same
    exact ne (Option.some.inj same)

/-- Whoever may name himself after another user and a separator acts as that user. -/
theorem slashed_name_acts_as_root : ∃ db, Database.rwb.execute (.insertUser (some "root/1".toList)
      (some "password".toList) (some "a@b".toList) (some "root".toList)) = .ok (0, db) ∧
    validUser .quiet db (some "root/1".toList) (some "password".toList) = true ∧
    (splitCookie (joinCookie (some "root/1".toList) (some "password".toList))).1 =
      some "root".toList ∧ ¬ CookieLaw .quiet db := by
  refine ⟨_, rfl, by decide, by decide, fun law => ?_⟩
  have returns := law.returns "root/1".toList "password".toList (by decide)
  exact absurd ((cookieReturns_iff (by decide)).mp returns).1 (by decide)

/-! ## Whom a request acts for -/

/-- The credentials of the login form or of the cookie. -/
def presented (q : Request) : Option Str × Option Str :=
  if (start q).action = "login".toList ∧ (start q).run then formCredentials q
  else match q.cookie with
    | some content => splitCookie content
    | none => (none, none)

/-- The name and the password do not depend on the tables. -/
theorem session_credentials (env : Environment) (db : Database) (q : Request) :
    ((session env db q).user, (session env db q).password) =
      if (start q).action = "logout".toList then (anonymous, anonanon)
      else if (start q).action = "login".toList then
        if (start q).run then formCredentials q else (anonymous, anonanon)
      else ((start q).user, (start q).password) := by
  by_cases out : (start q).action = "logout".toList
  · rw [if_pos out, session_logout out]
  rw [if_neg out]
  by_cases logs : (start q).action = "login".toList
  · rw [if_pos logs]
    by_cases run : (start q).run
    · rw [if_pos run]
      by_cases valid : validUser env db (formCredentials q).1 (formCredentials q).2 = true
      · rw [session_login_ok logs run valid]
      · rw [session_login_failed logs run valid]
    · rw [if_neg run, session_login_screen logs run]
  · rw [if_neg logs, session_other out logs]

/-- The form of a page other than these three reaches it as the request has it. -/
theorem session_form (env : Environment) (db : Database) {act : Str}
    (other : act ∉ ["base".toList, "login".toList, "logout".toList]) :
    ((session env db q).action = act ∧ (session env db q).run = true) ↔
      ((start q).action = act ∧ (start q).run = true) := by
  obtain ⟨base, other⟩ := List.ne_and_not_mem_of_not_mem_cons other
  obtain ⟨login_page, other⟩ := List.ne_and_not_mem_of_not_mem_cons other
  have logout_page : act ≠ "logout".toList := List.ne_of_not_mem_cons other
  by_cases out : (start q).action = "logout".toList
  · rw [session_logout out]
    exact iff_of_false (fun h => base h.1.symm) fun h => logout_page (h.1.symm.trans out)
  by_cases logs : (start q).action = "login".toList
  · refine iff_of_false ?_ fun h => login_page (h.1.symm.trans logs)
    rintro ⟨same, -⟩
    by_cases run : (start q).run
    · by_cases valid : validUser env db (formCredentials q).1 (formCredentials q).2 = true
      · rw [session_login_ok logs run valid] at same
        exact base same.symm
      · rw [session_login_failed logs run valid] at same
        exact login_page same.symm
    · rw [session_login_screen logs run] at same
      exact login_page (same.symm.trans logs)
  · rw [session_other out logs]

/-- Whoever does not act as the anonymous user has shown a password, and whoever has
not has the rights of the anonymous user. -/
structure Authenticated (env : Environment) (db : Database) (q : Request) : Prop where
  account : (session env db q).user ≠ anonymous →
    db.HasAccount (session env db q).user (session env db q).password
  rights : ¬ db.HasAccount (presented q).1 (presented q).2 →
    ∀ perm, db.Holds (session env db q).user perm ↔ db.Holds anonymous perm

/-- The credentials are those of an account, or only claim the anonymous user. -/
def Harmless (db : Database) (credentials : Option Str × Option Str) : Prop :=
  credentials.1 = anonymous ∨ db.HasAccount credentials.1 credentials.2

/-- Logging out and asking for the login screen are harmless; an attempt to log in and
a cookie are so with harmless credentials. -/
def Trustworthy (db : Database) (q : Request) : Prop :=
  (start q).action = "logout".toList ∨
    ((start q).action = "login".toList ∧ ((start q).run → Harmless db (formCredentials q))) ∨
    ((start q).action ≠ "login".toList ∧
      ∀ content, q.cookie = some content → Harmless db (splitCookie content))

theorem start_credentials : ((start q).user, (start q).password) =
    match q.cookie with
    | some content => splitCookie content
    | none => (anonymous, anonanon) := by
  cases sent : q.cookie <;> simp only [start, sent]

theorem harmless_session_iff (env : Environment) (db : Database) (q : Request) :
    Harmless db ((session env db q).user, (session env db q).password) ↔ Trustworthy db q := by
  have nobody : Harmless db (anonymous, anonanon) := Or.inl rfl
  rw [session_credentials, Trustworthy]
  by_cases out : (start q).action = "logout".toList
  · rw [if_pos out]
    exact iff_of_true nobody (Or.inl out)
  rw [if_neg out, or_iff_right out]
  by_cases logs : (start q).action = "login".toList
  · rw [if_pos logs, or_iff_left fun other => other.1 logs, and_iff_right logs]
    by_cases run : (start q).run
    · rw [if_pos run, imp_iff_right run]
    · rw [if_neg run]
      exact iff_of_true nobody fun r => absurd r run
  · rw [if_neg logs, or_iff_right fun form => logs form.1, and_iff_right logs, start_credentials]
    cases q.cookie with
    | none => exact iff_of_true nobody (by simp)
    | some content => simp

theorem presented_of_user (named : (session env db q).user ≠ anonymous) :
    presented q = ((session env db q).user, (session env db q).password) := by
  have credentials := session_credentials env db q
  have user := congrArg Prod.fst credentials
  rw [credentials, presented]
  by_cases out : (start q).action = "logout".toList
  · rw [if_pos out] at user
    exact absurd user named
  rw [if_neg out] at user ⊢
  by_cases logs : (start q).action = "login".toList
  · by_cases run : (start q).run
    · rw [if_pos logs, if_pos run, if_pos ⟨logs, run⟩]
    · rw [if_pos logs, if_neg run] at user
      exact absurd user named
  · rw [if_neg logs] at user ⊢
    rw [if_neg fun form => logs form.1, start_credentials]
    cases sent : q.cookie with
    | none =>
        simp only [start, sent] at user
        exact absurd user named
    | some content => rfl

/-- A request is authenticated exactly when it is trustworthy: the cookie is taken at
its word. -/
theorem authenticated_iff (env : Environment) (db : Database) (q : Request) :
    Authenticated env db q ↔ Trustworthy db q := by
  rw [← harmless_session_iff env]
  constructor
  · exact fun h => Classical.or_iff_not_imp_left.mpr h.account
  · intro harmless
    have account := Classical.or_iff_not_imp_left.mp harmless
    refine ⟨account, fun stranger perm => ?_⟩
    have nobody : (session env db q).user = anonymous := by
      by_contra named
      rw [presented_of_user named] at stranger
      exact stranger (account named)
    rw [nobody]

/-- Any password will do next to the name of the root user. -/
theorem forged_cookie_acts_as_root : (session .quiet .rwb ⟨[], some "root/wrong".toList⟩).user =
      some "root".toList ∧ ¬ Authenticated .quiet .rwb ⟨[], some "root/wrong".toList⟩ := by
  refine ⟨by decide, fun h => ?_⟩
  exact absurd (h.account (by decide)) (by decide)

end Rwb
