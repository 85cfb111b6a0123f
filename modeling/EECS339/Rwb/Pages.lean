import EECS339.Lib.Dispatch
import EECS339.Rwb.Session

/-!
# Pages of `rwb`

The main line of `rwb.pl` behind the header: one conditional for each page. What the
pages print is kept as far as it depends on the request and on these tables; the
static markup of the base page and the election cycles are left out, and what `near`
prints has a module of its own.
-/
namespace Rwb
open Dispatch

/-- The calls that write a table or send a mail. -/
inductive Effect where
  | userAdd (name password email referer : Option Str)
  | inviteUser (email name : Option Str)
  | userDel (name : Option Str)
  | giveUserPerm (name perm : Option Str)
  | revokeUserPerm (name perm : Option Str)

inductive Html where
  | h2 (title : String)
  | text (s : Str)
  | failed (what : String) (why : Failure)
  | form (name title : String) (fields : List String) (act : String)
  | permTable (actions : List (Varchar 64))
  | near (q : Request)

/-- The tables, the calls so far with the tables they met, the commands given to the
shell and the page so far. -/
structure World where
  db : Database
  effects : List (Database × Effect)
  mail : List Str
  page : List Html

def World.print (w : World) (h : Html) : World := { w with page := w.page ++ [h] }

/-- The status is what the command prints, which is false when empty or `0`. -/
def inviteUser (env : Environment) (email name : Option Str) : Option Failure × Str :=
  let command := "cat mail.txt | mail -s \"Hi ".toList ++ name.getD [] ++
    ", This is a test!\" ".toList ++ email.getD []
  let status := env.shell command
  (if status = [] ∨ status = "0".toList then none else some (.mail status), command)

/-- The call, and that it took place. -/
def perform (env : Environment) (e : Effect) (w : World) : Option Failure × World :=
  let effects := w.effects ++ [(w.db, e)]
  match e with
  | .userAdd name password email referer =>
      let (error, db) := userAdd env w.db name password email referer
      (error, { w with db, effects })
  | .inviteUser email name =>
      let (status, command) := inviteUser env email name
      (status, { w with mail := w.mail ++ [command], effects })
  | .userDel name =>
      let (error, db) := userDel env w.db name
      (error, { w with db, effects })
  | .giveUserPerm name perm =>
      let (error, db) := giveUserPerm env w.db name perm
      (error, { w with db, effects })
  | .revokeUserPerm name perm =>
      let (error, db) := revokeUserPerm env w.db name perm
      (error, { w with db, effects })

def attempt (env : Environment) (e : Effect) (complaint : String) (done : Str) (w : World) : World :=
  let (error, w) := perform env e w
  match error with
  | some why => w.print (.failed complaint why)
  | none => w.print (.text (done ++ ['\n']))

def returnLink : Html := .text "<p><a href=\"rwb.pl?act=base&run=1\">Return</a></p>".toList

/-! ## Pages without calls -/

def loginPage (s : Session) (w : World) : World :=
  let w := if s.logincomplain then w.print (.text "Login failed.  Try again.<p>".toList) else w
  if s.logincomplain || !s.run then
    w.print (.form "Login" "Login to Red, White, and Blue" ["user", "password"] "login")
  else w

def link (act label : String) : Html :=
  .text ("<p><a href=\"rwb.pl?act=" ++ act ++ "\">" ++ label ++ "</a></p>").toList

def World.offer (w : World) (may : Bool) (act label : String) : World :=
  if may then w.print (link act label) else w

/-- Links to what the user may do. -/
def basePage (env : Environment) (s : Session) (w : World) : World :=
  let can (action : String) : Bool := userCan env w.db s.user action.toList
  if s.user = anonymous then
    w.print (.text ("<p>You are anonymous, but you can also " ++
      "<a href=\"rwb.pl?act=login\">login</a></p>").toList)
  else
    let w := w.print (.text ("<p>You are logged in as ".toList ++ s.user.getD [] ++
      " and can do the following:</p>".toList))
    let w := w.offer (can "give-opinion-data") "give-opinion-data" "Give Opinion Of Current Location"
    let w := w.offer (can "give-cs-ind-data") "give-cs-ind-data" "Geolocate Individual Contributors"
    let w := w.offer (can "manage-users" || can "invite-users") "invite-user" "Invite User"
    let w := w.offer (can "manage-users" || can "add-users") "add-user" "Add User"
    let w := w.offer (can "manage-users") "delete-user" "Delete User"
    let w := w.offer (can "manage-users") "add-perm-user" "Add User Permission"
    let w := w.offer (can "manage-users") "revoke-perm-user" "Revoke User Permission"
    w.print (link "logout&run=1" "Logout")

def nearPage (q : Request) (w : World) : World := w.print (.near q)

def giveOpinionDataPage (w : World) : World :=
  w.print (.h2 "Giving Location Opinion Data Is Unimplemented")

def giveCsIndDataPage (w : World) : World :=
  w.print (.h2 "Giving Crowd-sourced Individual Geolocations Is Unimplemented")

/-! ## Pages with a call -/

def formOrRun (s : Session) (form run : World → World) (w : World) : World :=
  if s.run then run w else form w

/-- A page for whoever has one of the permissions. -/
def guarded (env : Environment) (s : Session) (perms : List String) (refusal : String)
    (form run : World → World) (w : World) : World :=
  let w := if perms.any fun perm => userCan env w.db s.user perm.toList then formOrRun s form run w
    else w.print (.h2 refusal)
  w.print returnLink

def addUserForm (w : World) : World :=
  w.print (.form "AddUser" "Add User" ["name", "email", "password"] "add-user")

/-- `UserAdd` with the parameters of the form and the user as referer. -/
def runAddUser (env : Environment) (q : Request) (s : Session) : World → World :=
  attempt env (.userAdd (q.param "name") (q.param "password") (q.param "email") s.user)
    "Can't add user because: " ("Added user ".toList ++ (q.param "name").getD [] ++ " ".toList ++
      (q.param "email").getD [] ++ " as referred by ".toList ++ s.user.getD [])

def inviteUserPage (env : Environment) (q : Request) (s : Session) (w : World) : World :=
  let w := formOrRun s
    (fun w => w.print (.form "InviteUser" "Invite User" ["name", "email"] "add-user"))
    (attempt env (.inviteUser (q.param "email") (q.param "name")) "Can't invite user because: "
      ("Invited user ".toList ++ (q.param "email").getD [] ++ " as referred by ".toList ++
        s.user.getD [])) w
  (w.print returnLink).print (.h2 "Invite User Functionality Is implemented!")

def addUserPage (env : Environment) (q : Request) (s : Session) : World → World :=
  guarded env s ["add-users", "manage-users"] "You do not have the required permissions to add users."
    addUserForm (runAddUser env q s)

/-- The page of `add-user` without its check. -/
def registerUserPage (env : Environment) (q : Request) (s : Session) (w : World) : World :=
  (formOrRun s addUserForm (runAddUser env q s) w).print returnLink

def deleteUserPage (env : Environment) (q : Request) (s : Session) : World → World :=
  guarded env s ["manage-users"] "You do not have the required permissions to delete users."
    (fun w => w.print (.form "DeleteUser" "Delete User" ["name"] "delete-user"))
    (attempt env (.userDel (q.param "name")) "Can't delete user because: "
      ("Deleted user ".toList ++ (q.param "name").getD []))

def printPermTable (env : Environment) (w : World) : World :=
  match permTable env w.db with
  | none => w
  | some actions => w.print (.permTable actions)

def addPermUserPage (env : Environment) (q : Request) (s : Session) : World → World :=
  guarded env s ["manage-users"] "You do not have the required permissions to manage user permissions."
    (fun w => printPermTable env
      (w.print (.form "AddUserPerm" "Add User Permission" ["name", "permission"] "add-perm-user")))
    (attempt env (.giveUserPerm (q.param "name") (q.param "permission"))
      "Can't add permission to user because: " ("Gave user ".toList ++ (q.param "name").getD [] ++
        " permission ".toList ++ (q.param "permission").getD []))

def revokePermUserPage (env : Environment) (q : Request) (s : Session) : World → World :=
  guarded env s ["manage-users"] "You do not have the required permissions to manage user permissions."
    (fun w => printPermTable env (w.print
      (.form "RevokeUserPerm" "Revoke User Permission" ["name", "permission"] "revoke-perm-user")))
    (attempt env (.revokeUserPerm (q.param "name") (q.param "permission"))
      "Can't revoke permission from user because: " ("Revoked user ".toList ++
        (q.param "name").getD [] ++ " permission ".toList ++ (q.param "permission").getD []))

/-! ## Handling a request -/

/-- The conditionals on `$action`, in their order. -/
def pages (env : Environment) (q : Request) (s : Session) : List (Str × (World → World)) :=
  [("login".toList, loginPage s),
    ("base".toList, basePage env s),
    ("near".toList, nearPage q),
    ("invite-user".toList, inviteUserPage env q s),
    ("give-opinion-data".toList, giveOpinionDataPage),
    ("give-cs-ind-data".toList, giveCsIndDataPage),
    ("add-user".toList, addUserPage env q s),
    ("register-user".toList, registerUserPage env q s),
    ("delete-user".toList, deleteUserPage env q s),
    ("add-perm-user".toList, addPermUserPage env q s),
    ("revoke-perm-user".toList, revokePermUserPage env q s)]

theorem pages_distinct (env : Environment) (q : Request) (s : Session) :
    ((pages env q s).map Prod.fst).Nodup := by
  simp only [pages, List.map_cons, List.map_nil]
  decide

def handle (env : Environment) (db : Database) (q : Request) : World :=
  dispatch (pages env q (session env db q)) (session env db q).action ⟨db, [], [], []⟩

end Rwb
