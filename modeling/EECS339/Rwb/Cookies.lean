import EECS339.Rwb.Session

/-!
# The session cookie of a response

A response carries the output cookie if there is one, expired after a logout. The
page is generated for the user and password at the end of the session's start.
-/
namespace Rwb

variable {env : Environment} {db : Database} {q : Request} {content : Str}

/-- The content of the session cookie that the response carries, unless it expires. -/
def Session.unexpiredCookie (s : Session) : Option Str :=
  if s.deletecookie then none else s.outputcookiecontent

/-- The cookie stands for the user and password of the page, and none goes with a login
screen, a failed login or a logout. -/
structure CookieConsistent (env : Environment) (db : Database) (q : Request) : Prop where
  encodes : ∀ content, (session env db q).unexpiredCookie = some content →
    splitCookie content = ((session env db q).user, (session env db q).password)
  screen : (start q).action = "login".toList → ¬ (start q).run →
    (session env db q).unexpiredCookie = none
  failed : (start q).action = "login".toList → (start q).run →
    ¬ validUser env db (formCredentials q).1 (formCredentials q).2 = true →
    (session env db q).unexpiredCookie = none
  logout : (start q).action = "logout".toList → (session env db q).unexpiredCookie = none

/-- A login screen and a failed login come without a cookie; whoever logs in has no
separator in his name or password. -/
structure Renewable (env : Environment) (db : Database) (q : Request) : Prop where
  screen : (start q).action = "login".toList → ¬ (start q).run → q.cookie = none
  failed : (start q).action = "login".toList → (start q).run →
    ¬ validUser env db (formCredentials q).1 (formCredentials q).2 = true → q.cookie = none
  account : ∀ user password, q.Logs user password →
    validUser env db (some user) (some password) = true → '/' ∉ user ∧ '/' ∉ password

/-! ## The cookie of each path -/

theorem cookie_logout (out : (start q).action = "logout".toList) :
    (session env db q).unexpiredCookie = none := by
  rw [session_logout out]
  rfl

theorem cookie_other (env : Environment) (db : Database) (out : (start q).action ≠ "logout".toList)
    (logs : (start q).action ≠ "login".toList) :
    (session env db q).unexpiredCookie = q.cookie ∧
      ∀ content, q.cookie = some content →
        splitCookie content = ((session env db q).user, (session env db q).password) := by
  rw [session_other out logs]
  refine ⟨rfl, fun content sent => ?_⟩
  rw [start_credentials, sent]

section Login

variable (logs : (start q).action = "login".toList)
include logs

theorem cookie_screen (run : ¬ (start q).run) : (session env db q).unexpiredCookie = q.cookie := by
  rw [session_login_screen logs run]
  rfl

theorem cookie_failed (run : (start q).run)
    (invalid : ¬ validUser env db (formCredentials q).1 (formCredentials q).2 = true) :
    (session env db q).unexpiredCookie = q.cookie := by
  rw [session_login_failed logs run invalid]
  rfl

/-- The credentials of an account are both defined. -/
theorem logs_of_valid (run : (start q).run)
    (valid : validUser env db (formCredentials q).1 (formCredentials q).2 = true) :
    ∃ user password, q.Logs user password ∧ validUser env db (some user) (some password) = true := by
  obtain ⟨-, u, -, name, word⟩ := validUser_iff.mp valid
  have form : formCredentials q = (some u.name.val, some u.password.val) := (Prod.ext name word).symm
  rw [form] at valid
  exact ⟨u.name.val, u.password.val, ⟨logs, run, form⟩, valid⟩

end Login

theorem cookie_login {user password : Str} (form : q.Logs user password)
    (valid : validUser env db (some user) (some password) = true) :
    (session env db q).unexpiredCookie = some (joinCookie (some user) (some password)) ∧
      (session env db q).user = some user ∧ (session env db q).password = some password := by
  have valid' : validUser env db (formCredentials q).1 (formCredentials q).2 = true := by
    rw [form.form]
    exact valid
  rw [session_login_ok form.action form.run valid', form.form]
  exact ⟨rfl, rfl, rfl⟩

/-! ## Exactly the consistent responses -/

theorem Renewable.consistent (h : Renewable env db q) : CookieConsistent env db q := by
  refine ⟨fun content carried => ?_, fun logs run => ?_, fun logs run invalid => ?_, cookie_logout⟩
  · by_cases out : (start q).action = "logout".toList
    · rw [cookie_logout out] at carried
      cases carried
    by_cases logs : (start q).action = "login".toList
    · by_cases run : (start q).run
      · by_cases valid : validUser env db (formCredentials q).1 (formCredentials q).2 = true
        · obtain ⟨user, password, form, valid⟩ := logs_of_valid logs run valid
          obtain ⟨cookie, name, word⟩ := cookie_login form valid
          rw [cookie, Option.some.injEq] at carried
          rw [name, word, ← carried]
          exact splitCookie_join.mpr (h.account user password form valid)
        · rw [cookie_failed logs run valid, h.failed logs run valid] at carried
          cases carried
      · rw [cookie_screen logs run, h.screen logs run] at carried
        cases carried
    · obtain ⟨cookie, encodes⟩ := cookie_other env db out logs
      rw [cookie] at carried
      exact encodes content carried
  · rw [cookie_screen logs run]
    exact h.screen logs run
  · rw [cookie_failed logs run invalid]
    exact h.failed logs run invalid

/-- The cookie of a response is consistent exactly if nothing is sent along with a
login screen or a failed login, and a login survives its own cookie. -/
theorem cookieConsistent_iff (env : Environment) (db : Database) (q : Request) :
    CookieConsistent env db q ↔ Renewable env db q := by
  refine ⟨fun h => ⟨fun logs run => ?_, fun logs run invalid => ?_, ?_⟩, Renewable.consistent⟩
  · have screen := h.screen logs run
    rw [cookie_screen logs run] at screen
    exact screen
  · rw [← cookie_failed logs run invalid]
    exact h.failed logs run invalid
  · intro user password form valid
    obtain ⟨cookie, name, word⟩ := cookie_login form valid
    have same := h.encodes _ cookie
    rw [name, word] at same
    exact splitCookie_join.mp same

/-- The login screen is generated for the anonymous user and renews the session of root. -/
theorem login_screen_renews_root :
    (session .quiet .rwb ⟨[("act".toList, "login".toList)], some "root/rootroot".toList⟩).user = anonymous ∧
      (session .quiet .rwb ⟨[("act".toList, "login".toList)],
        some "root/rootroot".toList⟩).unexpiredCookie = some "root/rootroot".toList ∧
      ¬ CookieConsistent .quiet .rwb ⟨[("act".toList, "login".toList)], some "root/rootroot".toList⟩ := by
  refine ⟨by decide, by decide, fun h => ?_⟩
  have none := h.screen (by decide) (by decide)
  exact absurd none (by decide)

end Rwb
