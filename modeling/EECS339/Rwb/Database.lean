import Mathlib

/-!
# The tables of `rwb`

`rwb.sql`: users, actions and permissions with their declared constraints, and the
functions of `rwb.pl` over `ExecSQL`. The FEC data, the opinions and the
crowd-sourced locations are left out.
-/
namespace Rwb

/-- Strings of Perl and of the database, one byte a character. -/
abbrev Str := List Char

/-- A `varchar(n) not null`; the empty string is null. -/
abbrev Varchar (n : Nat) := {s : Str // s ≠ [] ∧ s.length ≤ n}

inductive Constraint where
  | notNull
  | tooLong
  | longPasswd
  | emailOk
  | saneReferer
  | userKey
  | emailUnique
  | refererKey
  | childRecord
  | permUser
  | permAction
  | permUnique
  deriving DecidableEq

def Varchar.ofValue (n : Nat) : Option Str → Except Constraint (Varchar n)
  | none => .error .notNull
  | some s =>
      if empty : s = [] then .error .notNull
      else if fits : s.length ≤ n then .ok ⟨s, empty, fits⟩
      else .error .tooLong

/-- A row of `rwb_users` that passes the checks of its columns. -/
structure User where
  name : Varchar 64
  password : Varchar 64
  email : Varchar 256
  referer : Varchar 64
  long_passwd : 8 ≤ password.val.length
  email_ok : '@' ∈ email.val
  sane_referer : name.val = "root".toList ∨ name ≠ referer

def User.ofValues (name password email referer : Option Str) : Except Constraint User := do
  let name ← Varchar.ofValue 64 name
  let password ← Varchar.ofValue 64 password
  let email ← Varchar.ofValue 256 email
  let referer ← Varchar.ofValue 64 referer
  if long : 8 ≤ password.val.length then
    if at_sign : '@' ∈ email.val then
      if sane : name.val = "root".toList ∨ name ≠ referer then
        return ⟨name, password, email, referer, long, at_sign, sane⟩
      else throw .saneReferer
    else throw .emailOk
  else throw .longPasswd

/-- The rows of the three tables, with the keys and references between them. -/
structure Database where
  users : List User
  actions : List (Varchar 64)
  permissions : List (Varchar 64 × Varchar 64)
  user_key : (users.map User.name).Nodup
  email_unique : (users.map User.email).Nodup
  referer_key : ∀ u ∈ users, u.referer ∈ users.map User.name
  action_key : actions.Nodup
  perm_user : ∀ p ∈ permissions, p.1 ∈ users.map User.name
  perm_action : ∀ p ∈ permissions, p.2 ∈ actions
  perm_unique : permissions.Nodup

namespace Database

def HasAccount (db : Database) (user password : Option Str) : Prop :=
  ∃ u ∈ db.users, some u.name.val = user ∧ some u.password.val = password

instance (db : Database) (user password : Option Str) : Decidable (db.HasAccount user password) :=
  inferInstanceAs (Decidable (∃ u ∈ db.users, _))

def Holds (db : Database) (user : Option Str) (perm : Str) : Prop :=
  ∃ p ∈ db.permissions, some p.1.val = user ∧ p.2.val = perm

instance (db : Database) (user : Option Str) (perm : Str) : Decidable (db.Holds user perm) :=
  inferInstanceAs (Decidable (∃ p ∈ db.permissions, _))

/-! ## The statements that change rows -/

def insertUser (db : Database) (u : User) : Except Constraint Database :=
  if known : u.name ∈ db.users.map User.name then .error .userKey
  else if used : u.email ∈ db.users.map User.email then .error .emailUnique
  else if referer : u.referer ∈ u.name :: db.users.map User.name then
    .ok { db with
      users := u :: db.users
      user_key := List.nodup_cons.mpr ⟨known, db.user_key⟩
      email_unique := List.nodup_cons.mpr ⟨used, db.email_unique⟩
      referer_key := List.forall_mem_cons.mpr
        ⟨referer, fun v m => List.mem_cons_of_mem _ (db.referer_key v m)⟩
      perm_user := fun p m => List.mem_cons_of_mem _ (db.perm_user p m) }
  else .error .refererKey

/-- A referer other than the user himself stays; his permissions go with him. -/
def deleteUser (db : Database) (name : Option Str) : Except Constraint Database :=
  if child : ∃ u ∈ db.users, some u.name.val ≠ name ∧ some u.referer.val = name then
    .error .childRecord
  else
    have kept {v : Varchar 64} (m : v ∈ db.users.map User.name) (other : some v.val ≠ name) :
        v ∈ (db.users.filter fun u => some u.name.val ≠ name).map User.name := by
      obtain ⟨u, mu, rfl⟩ := List.mem_map.mp m
      exact List.mem_map_of_mem (List.mem_filter.mpr ⟨mu, decide_eq_true other⟩)
    .ok { db with
      users := db.users.filter fun u => some u.name.val ≠ name
      permissions := db.permissions.filter fun p => some p.1.val ≠ name
      user_key := db.user_key.sublist (List.filter_sublist.map _)
      email_unique := db.email_unique.sublist (List.filter_sublist.map _)
      referer_key := fun u m => by
        obtain ⟨mu, other⟩ := List.mem_filter.mp m
        exact kept (db.referer_key u mu) fun same => child ⟨u, mu, of_decide_eq_true other, same⟩
      perm_user := fun p m => by
        obtain ⟨mp, other⟩ := List.mem_filter.mp m
        exact kept (db.perm_user p mp) (of_decide_eq_true other)
      perm_action := fun p m => db.perm_action p (List.mem_filter.mp m).1
      perm_unique := db.perm_unique.filter _ }

def insertPermission (db : Database) (name action : Varchar 64) : Except Constraint Database :=
  if user : name ∈ db.users.map User.name then
    if known : action ∈ db.actions then
      if given : (name, action) ∈ db.permissions then .error .permUnique
      else .ok { db with
        permissions := (name, action) :: db.permissions
        perm_user := List.forall_mem_cons.mpr ⟨user, db.perm_user⟩
        perm_action := List.forall_mem_cons.mpr ⟨known, db.perm_action⟩
        perm_unique := List.nodup_cons.mpr ⟨given, db.perm_unique⟩ }
    else .error .permAction
  else .error .permUser

def deletePermission (db : Database) (name action : Option Str) : Database :=
  { db with
    permissions := db.permissions.filter fun p => ¬ (some p.1.val = name ∧ some p.2.val = action)
    perm_user := fun p m => db.perm_user p (List.mem_filter.mp m).1
    perm_action := fun p m => db.perm_action p (List.mem_filter.mp m).1
    perm_unique := db.perm_unique.filter _ }

end Database

/-! ## Statements -/

/-- The statements `rwb.pl` prepares for these tables, with their fills. -/
inductive Query where
  | insertUser (name password email referer : Option Str)
  | deleteUser (name : Option Str)
  | insertPermission (name action : Option Str)
  | deletePermission (name action : Option Str)
  | countUsers (name password : Option Str)
  | countPermissions (name action : Option Str)
  | selectActions

/-- The number selected, if one is, and the tables afterwards. -/
def Database.execute (db : Database) : Query → Except Constraint (Nat × Database)
  | .insertUser name password email referer => do
      return (0, ← db.insertUser (← User.ofValues name password email referer))
  | .deleteUser name => do return (0, ← db.deleteUser name)
  | .insertPermission name action => do
      return (0, ← db.insertPermission (← Varchar.ofValue 64 name) (← Varchar.ofValue 64 action))
  | .deletePermission name action => .ok (0, db.deletePermission name action)
  | .countUsers name password =>
      .ok (db.users.countP fun u => some u.name.val = name ∧ some u.password.val = password, db)
  | .countPermissions name action =>
      .ok (db.permissions.countP fun p => some p.1.val = name ∧ some p.2.val = action, db)
  | .selectActions => .ok (0, db)

/-- What the program runs against: the statements the database refuses whatever the
tables hold, for instance because nobody can connect, and the output of a command. -/
structure Environment where
  refused : Query → Option Str
  shell : Str → Str

def Environment.quiet : Environment := ⟨fun _ => none, fun _ => []⟩

inductive Failure where
  | refused (why : Str)
  | violated (constraint : Constraint)
  | mail (status : Str)

def execSQL (env : Environment) (db : Database) (q : Query) : Except Failure (Nat × Database) :=
  match env.refused q with
  | some why => .error (.refused why)
  | none => (db.execute q).mapError .violated

/-- `eval` of a statement: what `$@` holds and the tables afterwards. -/
def evalSQL (env : Environment) (db : Database) (q : Query) : Option Failure × Database :=
  match execSQL env db q with
  | .error e => (some e, db)
  | .ok (_, db') => (none, db')

def userAdd (env : Environment) (db : Database) (name password email referer : Option Str) :
    Option Failure × Database :=
  evalSQL env db (.insertUser name password email referer)

def userDel (env : Environment) (db : Database) (name : Option Str) : Option Failure × Database :=
  evalSQL env db (.deleteUser name)

def giveUserPerm (env : Environment) (db : Database) (name perm : Option Str) :
    Option Failure × Database :=
  evalSQL env db (.insertPermission name perm)

def revokeUserPerm (env : Environment) (db : Database) (name perm : Option Str) :
    Option Failure × Database :=
  evalSQL env db (.deletePermission name perm)

def permTable (env : Environment) (db : Database) : Option (List (Varchar 64)) :=
  match execSQL env db .selectActions with
  | .error _ => none
  | .ok (_, db) => some db.actions

/-- A failing count is answered with no. -/
def validUser (env : Environment) (db : Database) (user password : Option Str) : Bool :=
  match execSQL env db (.countUsers user password) with
  | .error _ => false
  | .ok (col, _) => 0 < col

def userCan (env : Environment) (db : Database) (user : Option Str) (action : Str) : Bool :=
  match execSQL env db (.countPermissions user (some action)) with
  | .error _ => false
  | .ok (col, _) => 0 < col

variable {env : Environment} {db : Database}

theorem validUser_iff {user password : Option Str} : validUser env db user password = true ↔
    env.refused (.countUsers user password) = none ∧ db.HasAccount user password := by
  rw [validUser, execSQL]
  cases env.refused (.countUsers user password) with
  | some why => simp
  | none => simp [Database.execute, Except.mapError, Database.HasAccount]

theorem userCan_iff {user : Option Str} {action : Str} : userCan env db user action = true ↔
    env.refused (.countPermissions user (some action)) = none ∧ db.Holds user action := by
  rw [userCan, execSQL]
  cases env.refused (.countPermissions user (some action)) with
  | some why => simp
  | none => simp [Database.execute, Except.mapError, Database.Holds]

/-! ## The rows of `rwb.sql` -/

namespace Database

def root : User where
  name := ⟨"root".toList, by decide⟩
  password := ⟨"rootroot".toList, by decide⟩
  email := ⟨"root@root.com".toList, by decide⟩
  referer := ⟨"root".toList, by decide⟩
  long_passwd := by decide
  email_ok := by decide
  sane_referer := by decide

def anon : User where
  name := ⟨"anon".toList, by decide⟩
  password := ⟨"anonanon".toList, by decide⟩
  email := ⟨"anon@anon.com".toList, by decide⟩
  referer := ⟨"root".toList, by decide⟩
  long_passwd := by decide
  email_ok := by decide
  sane_referer := by decide

def rwbActions : List (Varchar 64) :=
  [⟨"manage-users".toList, by decide⟩, ⟨"invite-users".toList, by decide⟩,
    ⟨"add-users".toList, by decide⟩, ⟨"query-fec-data".toList, by decide⟩,
    ⟨"query-cs-ind-data".toList, by decide⟩, ⟨"query-opinion-data".toList, by decide⟩,
    ⟨"give-cs-ind-data".toList, by decide⟩, ⟨"give-opinion-data".toList, by decide⟩]

/-- The tables as the script leaves them. -/
def rwb : Database where
  users := [root, anon]
  actions := rwbActions
  permissions :=
    (anon.name, ⟨"query-fec-data".toList, by decide⟩) ::
      (anon.name, ⟨"query-opinion-data".toList, by decide⟩) ::
        rwbActions.map fun action => (root.name, action)
  user_key := by decide
  email_unique := by decide
  referer_key := by decide
  action_key := by decide
  perm_user := by decide
  perm_action := by decide
  perm_unique := by decide

end Database
end Rwb
