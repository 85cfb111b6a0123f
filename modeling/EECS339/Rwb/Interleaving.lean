import EECS339.Rwb.RequestRuns

/-!
# Requests at the same time

The server runs a process for each request, and each statement is a transaction of its own.
Between the question whether the user may and the call that follows, other requests have
their turns.
-/
namespace Rwb

variable {db db' : Database} {q : Request}

/-! ## Processes -/

/-- What a process has still to do: to ask for one of the permissions before it makes the call,
or to make it. -/
inductive Rest where
  | done
  | ask (perms : List String) (e : Effect)
  | act (e : Effect)

def Command.rest (c : Command) : Rest :=
  match c.wants with
  | none => .act c.effect
  | some perms => .ask perms c.effect

structure Process where
  env : Environment
  request : Request
  rest : Rest

def Process.new (env : Environment) (q : Request) : Process where
  env
  request := q
  rest := (if (start q).run then (commands q (actor q)).lookup (start q).action else none).elim .done
    Command.rest

/-- One statement: the tables and the process behind it. -/
def Process.turn (db : Database) (p : Process) : Database × Process :=
  match p.rest with
  | .done => (db, p)
  | .ask [] _ => (db, { p with rest := .done })
  | .ask (perm :: perms) e =>
      let can := userCan p.env db (actor p.request) perm.toList
      (db, { p with rest := if can then .act e else .ask perms e })
  | .act e => (db.behind p.env e, { p with rest := .done })

structure Crowd where
  db : Database
  processes : List Process

/-- A request arrives, or one of the processes has its turn. -/
inductive Moment where
  | arrive (env : Environment) (q : Request)
  | turn (i : Nat)

def Crowd.next (c : Crowd) : Moment → Crowd
  | .arrive env q => { c with processes := c.processes ++ [.new env q] }
  | .turn i =>
      match c.processes[i]? with
      | none => c
      | some p => ⟨(p.turn c.db).1, c.processes.set i (p.turn c.db).2⟩

def Crowd.run (c : Crowd) (moments : List Moment) : Crowd := moments.foldl Crowd.next c

def Crowd.new (db : Database) : Crowd := ⟨db, []⟩

/-! ## A process alone -/

theorem turn_last (db : Database) (ps : List Process) (p : Process) :
    (⟨db, ps ++ [p]⟩ : Crowd).next (.turn ps.length) = ⟨(p.turn db).1, ps ++ [(p.turn db).2]⟩ := by
  simp [Crowd.next]

/-- The turns that are left to a process. -/
def Rest.turns : Rest → Nat
  | .done => 0
  | .ask perms _ => perms.length + 2
  | .act _ => 1

/-- What the process gets done if nobody disturbs it. -/
def Process.left (db : Database) (p : Process) : Option Effect :=
  match p.rest with
  | .done => none
  | .ask perms e => if perms.any fun perm =>
        userCan p.env db (actor p.request) perm.toList then some e else none
  | .act e => some e

theorem run_left (ps : List Process) {n : Nat} {p : Process} (enough : p.rest.turns ≤ n) :
    ((⟨db, ps ++ [p]⟩ : Crowd).run (List.replicate n (.turn ps.length))).db =
      (p.left db).elim db (db.behind p.env) := by
  induction n generalizing db p with
  | zero =>
      obtain ⟨env, q, rest⟩ := p
      cases rest with
      | done => rfl
      | ask perms e => exact absurd enough (Nat.not_succ_le_zero _)
      | act e => exact absurd enough (Nat.not_succ_le_zero _)
  | succ n ih =>
      rw [List.replicate_succ, Crowd.run, List.foldl_cons, turn_last, ← Crowd.run]
      obtain ⟨env, q, rest⟩ := p
      cases rest with
      | done => exact ih (Nat.zero_le _)
      | act e => exact ih (Nat.zero_le _)
      | ask perms e =>
          cases perms with
          | nil => exact ih (Nat.zero_le _)
          | cons perm perms =>
              have fewer : (Process.mk env q (.ask perms e)).rest.turns ≤ n := Nat.succ_le_succ_iff.mp enough
              by_cases can : userCan env db (actor q) perm.toList = true
              · have acts : (Process.turn db ⟨env, q, .ask (perm :: perms) e⟩) = (db, ⟨env, q, .act e⟩) := by
                  simp only [Process.turn, can, if_true]
                have one : (Process.mk env q (.act e)).rest.turns ≤ n :=
                  (Nat.succ_le_succ (Nat.zero_le _)).trans fewer
                rw [acts, ih one]
                simp only [Process.left, List.any_cons, can, Bool.true_or, if_true]
              · have asks : (Process.turn db ⟨env, q, .ask (perm :: perms) e⟩) =
                  (db, ⟨env, q, .ask perms e⟩) := by
                  simp only [Process.turn, can, Bool.false_eq_true, if_false]
                rw [asks, ih fewer]
                simp only [Process.left, List.any_cons, can, Bool.false_or]

theorem new_left (env : Environment) (db : Database) (q : Request) :
    (Process.new env q).left db = effect env db q := by
  rw [effect, effectFor, Process.new]
  cases (if (start q).run then (commands q (actor q)).lookup (start q).action else none) with
  | none => rfl
  | some c =>
      obtain ⟨wants, e⟩ := c
      cases wants with
      | none => rfl
      | some perms =>
          simp only [Option.elim_some, Command.rest, Process.left, Option.filter_some, Command.Allowed,
            Option.all_some]
          split_ifs <;> rfl

theorem new_cases (env : Environment) (q : Request) : (Process.new env q).rest = .done ∨
    ∃ c, ((start q).action, c) ∈ commands q (actor q) ∧ (Process.new env q).rest = c.rest := by
  rw [Process.new]
  split_ifs with run
  · cases listed : (commands q (actor q)).lookup (start q).action with
    | none => exact Or.inl rfl
    | some c =>
        obtain ⟨front, back, here, -⟩ := List.lookup_eq_some_iff.mp listed
        exact Or.inr ⟨c, here ▸ List.mem_append_right _ List.mem_cons_self, rfl⟩
  · exact Or.inl rfl

theorem new_turns (env : Environment) (q : Request) : (Process.new env q).rest.turns ≤ 4 := by
  rcases new_cases env q with rest | ⟨c, listed, rest⟩
  · rw [rest]
    exact Nat.zero_le _
  · rw [rest]
    simp only [commands, List.mem_cons, Prod.mk.injEq, List.not_mem_nil, or_false] at listed
    rcases listed with ⟨-, rfl⟩ | ⟨-, rfl⟩ | ⟨-, rfl⟩ | ⟨-, rfl⟩ | ⟨-, rfl⟩ | ⟨-, rfl⟩
    all_goals exact of_decide_eq_true rfl

/-- A request that nobody disturbs is handled as a whole. -/
theorem Crowd.serves (c : Crowd) (env : Environment) (q : Request) :
    (c.run (.arrive env q :: List.replicate 4 (.turn c.processes.length))).db = c.db.serve (env, q) := by
  change ((⟨c.db, c.processes ++ [.new env q]⟩ : Crowd).run _).db = _
  rw [run_left c.processes (new_turns env q), new_left, Database.serve, (handle_does env c.db q).db]
  rfl

/-! ## Calls were permitted -/

/-- The call that is left was permitted at some moment since the request came, or its page does
not ask. -/
def Earned (db : Database) (moments : List Moment) (i : Nat) (p : Process) : Prop :=
  match p.rest with
  | .done => True
  | .ask perms e => ∀ perm ∈ perms, perm ∈ e.demands
  | .act e => (start p.request).action ∈ ["register-user".toList, "invite-user".toList] ∨
      ∃ front, front <+: moments ∧ i < ((Crowd.new db).run front).processes.length ∧
        Permitted ((Crowd.new db).run front).db (actor p.request) e

theorem Earned.later {moments : List Moment} {i : Nat} {p : Process} (h : Earned db moments i p)
    (m : Moment) : Earned db (moments ++ [m]) i p := by
  obtain ⟨env, q, rest⟩ := p
  cases rest with
  | done => trivial
  | ask perms e => exact h
  | act e =>
      refine h.imp_right ?_
      rintro ⟨front, upto, there, permitted⟩
      exact ⟨front, upto.trans (List.prefix_append _ _), there, permitted⟩

theorem earned_new (db : Database) (moments : List Moment) (i : Nat) (env : Environment) (q : Request) :
    Earned db moments i (.new env q) := by
  rcases new_cases env q with rest | ⟨c, listed, rest⟩
  · rw [Earned, rest]
    trivial
  · rw [Earned, rest]
    simp only [commands, List.mem_cons, Prod.mk.injEq, List.not_mem_nil, or_false] at listed
    rcases listed with ⟨page, rfl⟩ | ⟨-, rfl⟩ | ⟨page, rfl⟩ | ⟨-, rfl⟩ | ⟨-, rfl⟩ | ⟨-, rfl⟩
    · exact Or.inl (page ▸ List.mem_cons_of_mem _ List.mem_cons_self)
    · exact fun _ m => m
    · exact Or.inl (page ▸ List.mem_cons_self)
    · exact fun _ m => m
    · exact fun _ m => m
    · exact fun _ m => m

/-- A process that gets a yes has been permitted the call at that moment. -/
theorem Earned.turn {moments : List Moment} {i : Nat} {p : Process} (h : Earned db moments i p)
    (there : i < ((Crowd.new db).run moments).processes.length) (m : Moment) :
    Earned db (moments ++ [m]) i (p.turn ((Crowd.new db).run moments).db).2 := by
  obtain ⟨env, q, rest⟩ := p
  cases rest with
  | done => trivial
  | act e => trivial
  | ask perms e =>
      cases perms with
      | nil => trivial
      | cons perm perms =>
          obtain ⟨first, others⟩ := List.forall_mem_cons.mp h
          by_cases can : userCan env ((Crowd.new db).run moments).db (actor q) perm.toList = true
          · simp only [Process.turn, can, if_true]
            exact Or.inr ⟨moments, List.prefix_append _ _, there, perm, first, (userCan_iff.mp can).2⟩
          · simp only [Process.turn, can, Bool.false_eq_true, if_false]
            exact others

theorem next_processes {c : Crowd} {m : Moment} {i : Nat} {p : Process}
    (here : (c.next m).processes[i]? = some p) : c.processes[i]? = some p ∨
      (∃ env q, m = .arrive env q ∧ p = .new env q) ∨
        ∃ p', m = .turn i ∧ c.processes[i]? = some p' ∧ p = (p'.turn c.db).2 := by
  cases m with
  | arrive env q =>
      change (c.processes ++ [.new env q])[i]? = some p at here
      rcases Nat.lt_or_ge i c.processes.length with old | new
      · rw [List.getElem?_append_left old] at here
        exact Or.inl here
      · rw [List.getElem?_append_right new] at here
        exact Or.inr (Or.inl ⟨env, q, rfl, List.mem_singleton.mp (List.mem_of_getElem? here)⟩)
  | turn j =>
      rw [Crowd.next] at here
      cases at_ : c.processes[j]? with
      | none =>
          rw [at_] at here
          exact Or.inl here
      | some p' =>
          rw [at_] at here
          by_cases same : j = i
          · subst same
            have inside := (List.getElem?_eq_some_iff.mp at_).1
            rw [List.getElem?_set_self inside] at here
            exact Or.inr (Or.inr ⟨p', rfl, at_, (Option.some.inj here).symm⟩)
          · rw [List.getElem?_set_ne same] at here
            exact Or.inl here

theorem run_append (db : Database) (moments : List Moment) (m : Moment) :
    (Crowd.new db).run (moments ++ [m]) = ((Crowd.new db).run moments).next m := by
  rw [Crowd.run, List.foldl_append, ← Crowd.run]
  rfl

theorem earned_run (db : Database) (moments : List Moment) (i : Nat) (p : Process)
    (here : ((Crowd.new db).run moments).processes[i]? = some p) : Earned db moments i p := by
  induction moments using List.reverseRecOn generalizing p with
  | nil => exact nomatch here
  | append_singleton moments m ih =>
      rw [run_append] at here
      rcases next_processes here with before | ⟨env, q, rfl, rfl⟩ | ⟨p', rfl, before, rfl⟩
      · exact (ih p before).later m
      · exact earned_new db _ i env q
      · exact (ih p' before).turn (List.getElem?_eq_some_iff.mp before).1 _

/-- Whenever a process is about to make a call, the user was permitted it at some moment since
the request came, unless the page is one of the two that do not ask. -/
theorem calls_were_permitted (db : Database) (moments : List Moment) (i : Nat) (p : Process) (e : Effect)
    (here : ((Crowd.new db).run moments).processes[i]? = some p) (call : p.rest = .act e) :
    (start p.request).action ∈ ["register-user".toList, "invite-user".toList] ∨
      ∃ front, front <+: moments ∧ i < ((Crowd.new db).run front).processes.length ∧
        Permitted ((Crowd.new db).run front).db (actor p.request) e := by
  have earned := earned_run db moments i p here
  rw [Earned, call] at earned
  exact earned

/-- A user who gives up his own permission. -/
def resignation (name : Str) : Request where
  params := [("act".toList, "revoke-perm-user".toList), ("run".toList, "1".toList), ("name".toList, name),
    ("permission".toList, "manage-users".toList)]
  cookie := some (joinCookie (some name) none)

theorem calls_were_permitted_small :
    (start (resignation "root".toList)).action ∈ ["register-user".toList, "invite-user".toList] ∨
      ∃ front, front <+: [.arrive .quiet (resignation "root".toList), .turn 0] ∧
        0 < ((Crowd.new .rwb).run front).processes.length ∧
          Permitted ((Crowd.new .rwb).run front).db (actor (resignation "root".toList))
            (.revokeUserPerm (some "root".toList) (some "manage-users".toList)) :=
  calls_were_permitted .rwb _ 0 ⟨.quiet, resignation "root".toList, .act _⟩ _ rfl rfl

/-- By the time of the call the permission may be gone: root deletes a user after he resigned. -/
example :
    let deletion : Request := ⟨[("act".toList, "delete-user".toList), ("run".toList, "1".toList),
      ("name".toList, "anon".toList)], some "root/rootroot".toList⟩
    let c := (Crowd.new .rwb).run [.arrive .quiet deletion, .turn 0,
      .arrive .quiet (resignation "root".toList), .turn 1, .turn 1]
    ¬ c.db.Holds (some "root".toList) "manage-users".toList ∧ c.db.users.length = 2 ∧
      (c.next (.turn 0)).db.users.length = 1 := by decide

/-! ## Who can get something changed -/

/-- A process that will not manage users, since its user may not. -/
def Rest.Weak (db : Database) (user : Option Str) : Rest → Prop
  | .done => True
  | .ask perms e => e.demands = ["manage-users"] → (∀ perm ∈ perms, perm = "manage-users") ∧
      ¬ db.Holds user "manage-users".toList
  | .act e => e.demands ≠ ["manage-users"]

theorem behind_kept (env : Environment) {e : Effect} (weak : e.demands ≠ ["manage-users"]) :
    (db.behind env e).permissions = db.permissions ∧ db.users <:+ (db.behind env e).users := by
  cases e with
  | userAdd name password email referer =>
      rcases evalSQL_cases env db (.insertUser name password email referer) with
        unchanged | ⟨n, db', ran, done⟩
      · rw [Database.behind, userAdd, unchanged]
        exact ⟨rfl, List.suffix_rfl⟩
      · obtain ⟨u, inserted⟩ := execute_insertUser ran
        obtain ⟨users, permissions⟩ := insertUser_rows inserted
        rw [Database.behind, userAdd, done]
        exact ⟨permissions, users ▸ List.suffix_cons _ _⟩
  | inviteUser email name => exact ⟨rfl, List.suffix_rfl⟩
  | _ => exact absurd rfl weak

theorem weak_new (env : Environment) (q : Request)
    (powerless : '/' ∉ (actor q).getD [] → ¬ db.Holds (actor q) "manage-users".toList) :
    (Process.new env q).rest.Weak db (actor q) := by
  rcases new_cases env q with rest | ⟨c, listed, rest⟩
  · rw [rest]
    trivial
  · rw [rest]
    have logs : (start q).action ≠ "login".toList := by
      intro page
      have command : (start q).action ∈ commandActs :=
        commands_acts q (actor q) ▸ List.mem_map_of_mem (f := Prod.fst) listed
      exact absurd (page ▸ command) (by decide)
    have weak := powerless (actor_free logs)
    simp only [commands, List.mem_cons, Prod.mk.injEq, List.not_mem_nil, or_false] at listed
    rcases listed with ⟨-, rfl⟩ | ⟨-, rfl⟩ | ⟨-, rfl⟩ | ⟨-, rfl⟩ | ⟨-, rfl⟩ | ⟨-, rfl⟩
    · exact (by decide : ["invite-users", "manage-users"] ≠ ["manage-users"])
    · exact fun one => absurd one (by decide : ["add-users", "manage-users"] ≠ ["manage-users"])
    · exact (by decide : ["add-users", "manage-users"] ≠ ["manage-users"])
    · exact fun _ => ⟨fun _ => List.mem_singleton.mp, weak⟩
    · exact fun _ => ⟨fun _ => List.mem_singleton.mp, weak⟩
    · exact fun _ => ⟨fun _ => List.mem_singleton.mp, weak⟩

/-- The question is answered with no as long as the permissions are those of `db`. -/
theorem weak_turn {p : Process} (weak : p.rest.Weak db (actor p.request))
    (same : db'.permissions = db.permissions) :
    (p.turn db').2.rest.Weak db (actor p.request) ∧
      (p.turn db').1.permissions = db'.permissions ∧ db'.users <:+ (p.turn db').1.users := by
  obtain ⟨env, q, rest⟩ := p
  cases rest with
  | done => exact ⟨weak, rfl, List.suffix_rfl⟩
  | act e => exact ⟨trivial, behind_kept env weak⟩
  | ask perms e =>
      cases perms with
      | nil => exact ⟨trivial, rfl, List.suffix_rfl⟩
      | cons perm perms =>
          refine ⟨?_, rfl, List.suffix_rfl⟩
          by_cases can : userCan env db' (actor q) perm.toList = true
          · simp only [Process.turn, can, if_true]
            intro one
            obtain ⟨wanted, not⟩ := weak one
            have holds := (Database.Holds.congr same _ _).mp (userCan_iff.mp can).2
            exact not (wanted perm List.mem_cons_self ▸ holds)
          · simp only [Process.turn, can, Bool.false_eq_true, if_false]
            exact fun one => ⟨fun perm' m => (weak one).1 perm' (List.mem_cons_of_mem _ m), (weak one).2⟩

/-- Permissions have stayed, users have only come, and no process is about to manage them. -/
structure Crowd.Kept (db : Database) (c : Crowd) : Prop where
  permissions : c.db.permissions = db.permissions
  users : db.users <:+ c.db.users
  weak : ∀ (i : Nat) (p : Process), c.processes[i]? = some p → p.rest.Weak db (actor p.request)

theorem turn_request (db : Database) (p : Process) : (p.turn db).2.request = p.request := by
  obtain ⟨env, q, rest⟩ := p
  cases rest with
  | ask perms e => cases perms <;> rfl
  | _ => rfl

theorem Crowd.Kept.next {c : Crowd} (h : c.Kept db) {m : Moment}
    (powerless : ∀ env q, m = .arrive env q → '/' ∉ (actor q).getD [] →
      ¬ db.Holds (actor q) "manage-users".toList) : (c.next m).Kept db := by
  have weak : ∀ (i : Nat) (p : Process), (c.next m).processes[i]? = some p →
    p.rest.Weak db (actor p.request) := by
    intro i p here
    rcases next_processes here with before | ⟨env, q, rfl, rfl⟩ | ⟨p', rfl, before, rfl⟩
    · exact h.weak i p before
    · exact weak_new env q (powerless env q rfl)
    · rw [turn_request]
      exact (weak_turn (h.weak i p' before) h.permissions).1
  cases m with
  | arrive env q => exact ⟨h.permissions, h.users, weak⟩
  | turn i =>
      cases at_ : c.processes[i]? with
      | none =>
          have idle : c.next (.turn i) = c := by simp only [Crowd.next, at_]
          exact idle.symm ▸ h
      | some p =>
          obtain ⟨-, permissions, users⟩ := weak_turn (h.weak i p at_) h.permissions
          have db_next : (c.next (.turn i)).db = (p.turn c.db).1 := by simp only [Crowd.next, at_]
          exact ⟨db_next ▸ permissions.trans h.permissions, db_next ▸ h.users.trans users, weak⟩

end Rwb
