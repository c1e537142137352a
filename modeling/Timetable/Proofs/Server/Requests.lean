import Timetable.Proofs.Desk
import Timetable.Proofs.Server.Crowd

/-!
# Calls on a store as moves of a crowd

Whatever a store on a server is asked to do is made of the steps in which callers share its pool. A
`Call` is what one caller asks for, from its first step to its last: an errand through a transaction
object says one thing after the other (`Exchange`), the beginning of a transaction looks into the
pool and may connect, and its end puts the connection back; to make the tables is all of this in a
row. So whatever is true of all moves of a crowd is true of the calls on the store, whoever else
uses it in the meantime (`Call.moves`), and the places of the pool are accounted for before and
after each of them (`account_balanced`).
-/

namespace Timetable.Server

open Pool Crowd

/-! ### What is said in a transaction -/

/-- Something is said to the server in a transaction, and this is the answer. -/
inductive Says : Pool × Transaction → Except Failure Unit → Pool × Transaction → Prop
  | send {x y e a} (hrun : (send e).run x = (a, y)) : Says x (a.map fun _ => ()) y
  | commit {x y a} (hrun : commit.run x = (a, y)) : Says x a y
  | rollback {x y a} (hrun : rollback.run x = (a, y)) : Says x a y

section

variable {p q : Pool} {tx t : Transaction} {a : Except Failure Unit} {l r : List Caller}

/-- What is said is part of what callers of a crowd may do. -/
theorem Says.step (h : Says (p, tx) a (q, t)) :
    Step .talk ⟨p, l ++ .holding tx :: r⟩ ⟨q, l ++ .holding t :: r⟩ := by
  cases h with
  | send hrun => exact .send hrun
  | commit hrun => exact .commit hrun
  | rollback hrun => exact .rollback hrun

theorem Says.alike (h : Says (p, tx) a (q, t)) : p.Alike q ∧ t.connection = tx.connection := by
  cases h with
  | send hrun => exact (alike_send hrun).imp_right (congrArg Transaction.connection)
  | commit hrun => exact alike_commit hrun
  | rollback hrun => exact alike_rollback hrun

end

/-- One thing after the other is said in a transaction. -/
def Exchange : Pool × Transaction → Pool × Transaction → Prop :=
  Relation.ReflTransGen fun x y => ∃ a, Says x a y

theorem Exchange.alike {x y : Pool × Transaction} (h : Exchange x y) :
    x.1.Alike y.1 ∧ y.2.connection = x.2.connection := by
  induction h with
  | refl => exact ⟨.refl _, rfl⟩
  | tail _ hsaid ih =>
    obtain ⟨a, hsaid⟩ := hsaid
    exact ⟨ih.1.trans hsaid.alike.1, hsaid.alike.2.trans ih.2⟩

theorem Moves.of_step {m : Move} {s t : Crowd} (h : Step m s t) : Moves s t := .single ⟨m, h⟩

theorem Exchange.moves {x y : Pool × Transaction} (h : Exchange x y) (l r : List Caller) :
    Moves ⟨x.1, l ++ .holding x.2 :: r⟩ ⟨y.1, l ++ .holding y.2 :: r⟩ := by
  induction h with
  | refl => exact .refl
  | tail _ hsaid ih =>
    obtain ⟨a, hsaid⟩ := hsaid
    exact ih.tail ⟨_, hsaid.step⟩

/-- An action of a transaction does nothing but talk to the server. -/
def Talks (x : Action (Pool × Transaction) α) : Prop := ∀ s, Exchange s (x.run s).2

section

variable {x : Action (Pool × Transaction) α} {f : α → Action (Pool × Transaction) β}

theorem talks_pure (a : α) : Talks (pure a) := fun _ => .refl

theorem talks_fail (e : Failure) : Talks (.fail e : Action _ α) := fun _ => .refl

theorem Talks.attempt (hx : Talks x) : Talks x.attempt := hx

/-- What an action has said, the next one takes up. -/
theorem Talks.bind (hx : Talks x) (hf : ∀ a, Talks (f a)) : Talks (x >>= f) := by
  intro s
  have hsaid := hx s
  rcases hrun : x.run s with ⟨e | a, t⟩
  · rw [hrun] at hsaid
    rw [Action.run_bind_of_error hrun]
    exact hsaid
  · rw [hrun] at hsaid
    rw [Action.run_bind_of_ok hrun]
    exact hsaid.trans (hf a t)

end

theorem talks_send (e : Event) : Talks (send e) := fun _ => .single ⟨_, .send rfl⟩

theorem talks_commit : Talks commit := fun _ => .single ⟨_, .commit rfl⟩

theorem talks_rollback : Talks rollback := fun _ => .single ⟨_, .rollback rfl⟩

theorem talks_refusing {x : Action (Pool × Transaction) Outcome} (hx : Talks x) :
    Talks (refusing x) := by
  refine hx.attempt.bind fun r => ?_
  split
  · exact talks_pure _
  · exact talks_pure _
  · exact talks_fail _

theorem talks_order (name : String) (parameters : List (Option String)) :
    Talks (order name parameters) :=
  talks_refusing ((talks_send _).bind fun _ => talks_pure _)

theorem talks_delete (name id : String) (absent : Refusal) : Talks (delete name id absent) :=
  talks_refusing ((talks_send _).bind fun _ => talks_pure _)

theorem talks_insertSchedule (s : Schedule) : Talks (Pool.insertSchedule s) := by
  refine (talks_send _).attempt.bind fun r => ?_
  split
  · exact talks_pure _
  · exact talks_pure _
  · exact talks_pure _
  · exact talks_fail _

theorem talks_exchange (found : List Row) (qs : List Query) : Talks (exchange found qs) := by
  induction qs generalizing found with
  | nil => exact talks_pure _
  | cons q qs ih =>
    refine (talks_send _).attempt.bind fun r => ?_
    split
    · exact ih _
    · exact talks_pure _
    · exact talks_fail _

theorem talks_askEach (qs : List Query) : Talks (askEach qs) :=
  (talks_exchange [] qs).bind fun _ => talks_pure _

theorem talks_migrate (statements : List String) :
    Talks (Sql.migrate (fun sql => do let _ ← send (.exec sql)) statements) := by
  induction statements with
  | nil => exact talks_pure _
  | cons sql statements ih => exact ((talks_send _).bind fun _ => talks_pure _).bind fun _ => ih

theorem talks_write (w : Write) : Talks w.request := by
  cases w with
  | change c =>
    cases c with
    | insertDeployment d => exact talks_order _ _
    | deleteDeployment id => exact talks_delete _ _ _
    | insertSchedule s => exact talks_insertSchedule s
    | deleteSchedule id => exact talks_delete _ _ _
  | insertRuns rs => exact talks_askEach _
  | insertStates ss => exact talks_askEach _
  | linkStates strategy ids => exact talks_askEach _

theorem talks_inquiry (q : Inquiry) : Talks q.request := by
  cases q with
  | statelessRunIds ids => exact (talks_exchange [] _).bind fun _ => talks_pure _
  | findDeployment _ | listDeployments _ _ | listSchedules _ | findRun _ | listRuns _
  | listStates _ => exact (talks_send _).bind fun _ => talks_pure _

/-- No errand does anything but talk. -/
theorem exchange_errand (e : Errand) (s : Pool × Transaction) : Exchange s (e.run s) := by
  cases e with
  | write w => exact talks_write w s
  | read q => exact talks_inquiry q s

/-! ### Calls -/

/-- Where a caller stands that has not been given a connection. -/
def Caller.refused : Failure → Caller
  | .waiting => waiting
  | _ => away

/-- What a caller asks a store for, or is refused. -/
inductive Deal
  | begin
  | refusal
  | errand
  | commit
  | rollback
  | release
  | bootstrap
deriving DecidableEq, Repr

/-- A caller makes a call on a store, and nobody gets in between. -/
inductive Call : Deal → Crowd → Crowd → Prop
  | begin {p q l r x tx} (hx : Caller.Looks x)
      (hrun : (Repository.begin : Action Pool Transaction).run p = (.ok tx, q)) :
      Call .begin ⟨p, l ++ x :: r⟩ ⟨q, l ++ .holding tx :: r⟩
  | refusal {p q l r x e} (hx : Caller.Looks x)
      (hrun : (Repository.begin : Action Pool Transaction).run p = (.error e, q)) :
      Call .refusal ⟨p, l ++ x :: r⟩ ⟨q, l ++ .refused e :: r⟩
  | errand {p q l r tx t} (e : Errand) (hrun : e.run (p, tx) = (q, t)) :
      Call .errand ⟨p, l ++ .holding tx :: r⟩ ⟨q, l ++ .holding t :: r⟩
  | commit {p q l r tx t a} (hrun : Repository.commit.run (p, tx) = (a, q, t)) :
      Call .commit ⟨p, l ++ .holding tx :: r⟩ ⟨q, l ++ .holding t :: r⟩
  | rollback {p q l r tx t a} (hrun : Repository.rollback.run (p, tx) = (a, q, t)) :
      Call .rollback ⟨p, l ++ .holding tx :: r⟩ ⟨q, l ++ .holding t :: r⟩
  | release {p l r tx} :
      Call .release ⟨p, l ++ .holding tx :: r⟩ ⟨(Repository.release (p, tx)).2, l ++ .away :: r⟩
  /-- The tables are made in a transaction of their own. -/
  | bootstrap {p q l r x tx} (hx : Caller.Looks x) (hrun : Pool.begin.run p = (.ok tx, q)) :
      Call .bootstrap ⟨p, l ++ x :: r⟩ ⟨(bootstrap.run p).2, l ++ .away :: r⟩
  | unstarted {p q l r x e} (hx : Caller.Looks x) (hrun : Pool.begin.run p = (.error e, q)) :
      Call .bootstrap ⟨p, l ++ x :: r⟩ ⟨(bootstrap.run p).2, l ++ .refused e :: r⟩

/-- What a call makes of the connections that callers have. -/
def Deal.Turns : Deal → List Connection → List Connection → Prop
  | begin, held, held' => ∃ c ∉ held, held'.Perm (c :: held)
  | release, held, held' => ∃ c ∉ held', held.Perm (c :: held')
  | refusal, held, held' | errand, held, held' | commit, held, held' | rollback, held, held'
  | bootstrap, held, held' => held' = held

theorem Caller.looks_refused (e : Failure) : Looks (refused e) := by
  unfold refused
  split
  · exact .waiting
  · exact .away

namespace Pool

variable {p q : Pool}

/-- A server that does not prepare a statement does not keep anyone waiting. -/
theorem refused_of_prepare {statements : List (String × String)} {e : Failure}
    (h : (prepare statements).run p = (.error e, q)) : Caller.refused e = .away := by
  induction statements generalizing p with
  | nil => cases h
  | cons statement statements ih =>
    simp only [Action.run, prepare] at h
    split at h
    · cases h
      rfl
    · exact ih h

theorem refused_of_connect {e : Failure} (h : connect.run p = (.error e, q)) :
    Caller.refused e = .away := by
  simp only [Action.run, connect] at h
  split at h
  · cases h
    rfl
  split at h
  · cases h
  · next hprepare =>
    cases h
    exact refused_of_prepare hprepare

end Pool

section

variable {l r : List Caller} {p q : Pool} {tx u : Transaction} {x : Caller} {s t : Crowd} {d : Deal}

/-- The connection of a transaction that is released goes back into the pool. -/
theorem moves_release :
    Moves ⟨p, l ++ .holding tx :: r⟩ ⟨(release (p, tx)).2, l ++ .away :: r⟩ := by
  have hrollback := (talks_rollback (p, tx)).moves l r
  have hrun : rollback.run (p, tx) = rollback (p, tx) := rfl
  rw [hrun] at hrollback
  simp only [release]
  split
  · exact .of_step .release
  split
  · next q t h =>
    rw [h] at hrollback
    exact hrollback.tail ⟨_, .release⟩
  · next q t h =>
    rw [h] at hrollback
    exact hrollback.tail ⟨_, .release⟩

/-- A caller that looks into the pool comes to hold a transaction, or it waits because it has found
nothing, or it goes away because the connection for which it has kept a place cannot be made. -/
theorem moves_begin (hx : Caller.Looks x) :
    (∀ tx, Pool.begin.run p = (.ok tx, q) →
        Moves ⟨p, l ++ x :: r⟩ ⟨q, l ++ .holding tx :: r⟩) ∧
      ∀ e, Pool.begin.run p = (.error e, q) →
        Step .wait ⟨p, l ++ x :: r⟩ ⟨q, l ++ .refused e :: r⟩ ∨
          ∃ s, Step .reserve ⟨p, l ++ x :: r⟩ s ∧ Step .fail s ⟨q, l ++ .refused e :: r⟩ := by
  rcases hoffer : p.offer with ⟨c | - | -, o⟩
  · have hacquire : acquire.run p = (.ok c, o) := by
      simp only [Action.run, acquire, hoffer]
    have hbegin : Pool.begin.run p = (.ok (.onConnection c), o.say (.begin c)) :=
      Action.run_bind_of_ok hacquire
    rw [hbegin]
    constructor
    · rintro tx ⟨⟩
      exact .of_step (.take hx hoffer)
    · rintro e ⟨⟩
  · have hacquire : acquire.run p = connect.run o := by
      simp only [Action.run, acquire, hoffer]
    rcases hconnect : connect.run o with ⟨e | c, m⟩
    · have hbegin : Pool.begin.run p = (.error e, m) :=
        Action.run_bind_of_error (hacquire.trans hconnect)
      rw [hbegin]
      constructor
      · rintro tx ⟨⟩
      · rintro e ⟨⟩
        rw [refused_of_connect hconnect]
        exact .inr ⟨_, .reserve hx hoffer, .fail hconnect⟩
    · have hbegin : Pool.begin.run p = (.ok (.onConnection c), m.say (.begin c)) :=
        Action.run_bind_of_ok (hacquire.trans hconnect)
      rw [hbegin]
      constructor
      · rintro tx ⟨⟩
        exact (Moves.of_step (.reserve hx hoffer)).tail ⟨_, .connect hconnect⟩
      · rintro e ⟨⟩
  · have hacquire : acquire.run p = (.error .waiting, o) := by
      simp only [Action.run, acquire, hoffer]
    have hbegin : Pool.begin.run p = (.error .waiting, o) := Action.run_bind_of_error hacquire
    rw [hbegin]
    constructor
    · rintro tx ⟨⟩
    · rintro e ⟨⟩
      exact .inl (.wait hx hoffer)

theorem moves_refusal {e : Failure} (hx : Caller.Looks x)
    (hrun : Pool.begin.run p = (.error e, q)) :
    Moves ⟨p, l ++ x :: r⟩ ⟨q, l ++ .refused e :: r⟩ := by
  rcases (moves_begin hx).2 e hrun with hwait | ⟨s, hreserve, hfail⟩
  · exact .of_step hwait
  · exact (Moves.of_step hreserve).tail ⟨_, hfail⟩

/-- Whoever makes the tables has given the connection back afterwards. -/
theorem moves_bootstrap (hx : Caller.Looks x) (hrun : Pool.begin.run p = (.ok tx, q)) :
    Moves ⟨p, l ++ x :: r⟩ ⟨(bootstrap.run p).2, l ++ .away :: r⟩ := by
  have hbody := (talks_migrate (Sql.schema .postgresql)).bind fun _ => talks_commit
  rw [bootstrap, Action.run_bind_of_ok hrun]
  exact (((moves_begin hx).1 tx hrun).trans ((hbody (q, tx)).moves l r)).tail ⟨_, .release⟩

/-- Where every place is taken by a connection that is in use, a call is refused. -/
theorem Call.refusal_of_full (hx : Caller.Looks x) (hidle : p.idle = [])
    (hfull : p.capacity ≤ p.live) :
    Call .refusal ⟨p, l ++ x :: r⟩ ⟨p, l ++ .waiting :: r⟩ :=
  .refusal hx (Action.run_bind_of_error (acquire_of_full hidle hfull))

/-- Every call is made of moves. -/
theorem Call.moves (h : Call d s t) : Moves s t := by
  cases h with
  | begin hx hrun => exact (moves_begin hx).1 _ hrun
  | refusal hx hrun => exact moves_refusal hx hrun
  | @errand p q l r tx t e hrun =>
    have hmoves := (exchange_errand e (p, tx)).moves l r
    rwa [hrun] at hmoves
  | commit hrun => exact .of_step (.commit hrun)
  | rollback hrun => exact .of_step (.rollback hrun)
  | release => exact moves_release
  | bootstrap hx hrun => exact moves_bootstrap hx hrun
  | unstarted hx hrun =>
    rw [Pool.bootstrap, Action.run_bind_of_error hrun]
    exact moves_refusal hx hrun

/-- Who comes to hold a connection has one more than all callers had before. -/
theorem Crowd.turns_holding (p q : Pool) (l r : List Caller) {x : Caller} (hx : Caller.Looks x)
    (tx : Transaction) : (Crowd.account ⟨q, l ++ .holding tx :: r⟩).connecting =
        (Crowd.account ⟨p, l ++ x :: r⟩).connecting ∧
      (Crowd.account ⟨q, l ++ .holding tx :: r⟩).held.Perm
        (tx.connection :: (Crowd.account ⟨p, l ++ x :: r⟩).held) := by
  rw [account_of_looks p l r hx .away, account_append, account_append]
  exact ⟨rfl, List.perm_middle⟩

theorem Crowd.turns_looks (p q : Pool) (l r : List Caller) {x y : Caller} (hx : Caller.Looks x)
    (hy : Caller.Looks y) : (Crowd.account ⟨q, l ++ y :: r⟩).connecting =
        (Crowd.account ⟨p, l ++ x :: r⟩).connecting ∧
      (Crowd.account ⟨q, l ++ y :: r⟩).held = (Crowd.account ⟨p, l ++ x :: r⟩).held := by
  rw [account_of_looks p l r hx hy]
  exact ⟨rfl, rfl⟩

theorem Exchange.turns (h : Exchange (p, tx) (q, u)) (l r : List Caller) :
    (Crowd.account ⟨q, l ++ .holding u :: r⟩).connecting =
        (Crowd.account ⟨p, l ++ .holding tx :: r⟩).connecting ∧
      (Crowd.account ⟨q, l ++ .holding u :: r⟩).held =
        (Crowd.account ⟨p, l ++ .holding tx :: r⟩).held := by
  rw [account_talk l r h.alike]
  exact ⟨rfl, rfl⟩

/-- Who finds nothing leaves everything as it is. -/
theorem Step.account_of_wait (h : Step .wait s t) : t.account = s.account := by
  cases h with
  | wait hx hoffer =>
    obtain ⟨-, -, rfl⟩ := offer_eq_nothing hoffer
    exact account_of_looks _ _ _ .waiting hx

/-- A call leaves the connections of all other callers with them. -/
theorem Call.turns {capacity : Nat} (hs : s.Sound capacity) (ht : t.Sound capacity)
    (h : Call d s t) : t.account.connecting = s.account.connecting ∧
      d.Turns s.account.held t.account.held := by
  have hnodup : s.account.held.Nodup := (List.nodup_append.1 hs.balanced.nodup).2.1
  have hnodup' : t.account.held.Nodup := (List.nodup_append.1 ht.balanced.nodup).2.1
  cases h with
  | @begin p q l r x tx hx hrun =>
    obtain ⟨hconnecting, hperm⟩ := turns_holding p q l r hx tx
    have hnew := (List.nodup_cons.1 (hperm.nodup_iff.1 hnodup')).1
    exact ⟨hconnecting, _, hnew, hperm⟩
  | refusal hx hrun => exact turns_looks _ _ _ _ hx (Caller.looks_refused _)
  | @errand p q l r tx t e hrun =>
    have hexchange : Exchange (p, tx) (q, t) := hrun ▸ exchange_errand e (p, tx)
    exact hexchange.turns l r
  | commit hrun => exact Exchange.turns (.single ⟨_, .commit hrun⟩) _ _
  | rollback hrun => exact Exchange.turns (.single ⟨_, .rollback hrun⟩) _ _
  | @release p l r tx =>
    obtain ⟨hconnecting, hperm⟩ := turns_holding (Pool.release (p, tx)).2 p l r .away tx
    have hback := (List.nodup_cons.1 (hperm.nodup_iff.1 hnodup)).1
    exact ⟨hconnecting.symm, _, hback, hperm⟩
  | bootstrap hx hrun => exact turns_looks _ _ _ _ hx .away
  | unstarted hx hrun => exact turns_looks _ _ _ _ hx (Caller.looks_refused _)

end

/-- However callers get in between each other, the places of the pool add up and are never too many,
and no connection is held twice or both held and idle. An attempt to connect takes a place and gives
it back if it fails, so a caller waits only while callers have all the places. The calls on a store
are made of such steps: each gives its caller a connection that nobody else has, takes it back or
leaves it, and a call that is refused leaves everything as it was. -/
theorem account_balanced {conninfo : String} {maxConnections : Nat} {s : Crowd}
    (h : Moves (.opening conninfo maxConnections) s) :
    s.account.Balanced (max 1 maxConnections) ∧
      (∀ t, Step .reserve s t → t.account = s.account.keepPlace) ∧
      (∀ t, Step .fail s t → s.account = t.account.keepPlace) ∧
      (∀ t u, Step .reserve s t → Step .fail t u → u.account = s.account) ∧
      (∀ t, Step .wait s t →
        s.account.held.length + s.account.connecting = max 1 maxConnections) ∧
      (∀ d t, Call d s t → Moves s t ∧ t.account.Balanced (max 1 maxConnections) ∧
        t.account.connecting = s.account.connecting ∧ d.Turns s.account.held t.account.held) ∧
      ∀ t, Call .refusal s t → t.account = s.account := by
  have hsound := (Crowd.Sound.opening conninfo maxConnections).moves h
  have hreserve : ∀ t, Step .reserve s t → t.account = s.account.keepPlace := by
    intro t ht
    cases ht with
    | reserve hx hoffer => exact (hsound.reserve hx hoffer).1
  have hfail : ∀ t u, t.Sound (max 1 maxConnections) → Step .fail t u →
      t.account = u.account.keepPlace := by
    intro t u ht hu
    cases hu with
    | fail hrun => exact (ht.fail hrun).1
  have hsame : ∀ t u, Step .reserve s t → Step .fail t u → u.account = s.account := by
    intro t u ht hu
    exact Account.keepPlace_inj ((hfail t u (hsound.step ht) hu).symm.trans (hreserve t ht))
  refine ⟨hsound.balanced, hreserve, fun t => hfail s t hsound, hsame, ?_, ?_, ?_⟩
  · intro t ht
    cases ht with
    | wait hx hoffer => exact (hsound.wait hx hoffer).1
  · intro d t ht
    have hsound' := hsound.moves ht.moves
    exact ⟨ht.moves, hsound'.balanced, ht.turns hsound hsound'⟩
  · intro t ht
    cases ht with
    | refusal hx hrun =>
      rcases (moves_begin hx).2 _ hrun with hwait | ⟨t, hplace, hfailed⟩
      · exact hwait.account_of_wait
      · exact hsame t _ hplace hfailed

/-- A pool of one connection: an attempt that fails makes room for another caller, and what that
one gives back is there for the first. As long as that one has it, whoever asks for another is
refused. -/
theorem account_balanced_after_failure :
    ∃ s t, Moves (.opening "" 0) s ∧ s.account = ⟨1, [], [1], 0⟩ ∧
      s.account.Balanced (max 1 0) ∧ Call .refusal s t ∧ t.account = s.account := by
  let p : Pool := ⟨"", 1, [], 1, 0, false, .silent, [.connect ""]⟩
  obtain ⟨q, hrun⟩ := Pool.exists_connect_eq_ok (p := p) rfl rfl
  have hroom : Moves (.opening "" 0) ⟨p, [.away, .connecting]⟩ := by
    have harrive : Moves (.opening "" 0) ⟨.create "" 0, [.away, .away]⟩ :=
      (Relation.ReflTransGen.single ⟨_, Step.arrive⟩).tail ⟨_, Step.arrive⟩
    have hanswer := harrive.tail ⟨_, Step.answer ⟨[], [some ⟨.brokenConnection, ""⟩], [], [], []⟩⟩
    have hreserve := hanswer.tail ⟨_, Step.reserve (l := []) .away rfl⟩
    have hwait := hreserve.tail ⟨_, Step.wait (l := [.connecting]) .away rfl⟩
    have hfail := hwait.tail ⟨_, Step.fail (l := []) rfl⟩
    exact hfail.tail ⟨_, Step.reserve (l := [.away]) .waiting rfl⟩
  have hconnect := hroom.tail ⟨_, Step.connect (l := [.away]) hrun⟩
  have hrelease := hconnect.tail ⟨_, Step.release (l := [.away])⟩
  obtain ⟨-, script, events, rfl⟩ := Pool.connect_eq_ok hrun
  have htake := hrelease.tail ⟨_, Step.take (l := []) .away rfl⟩
  obtain ⟨hbalanced, -, -, -, -, -, hsame⟩ := account_balanced htake
  have hrefused : ∀ o : Pool, o.idle = [] → o.capacity ≤ o.live →
      Call .refusal ⟨o, [.holding (.onConnection 1), .away]⟩
        ⟨o, [.holding (.onConnection 1), .waiting]⟩ := fun o hidle hfull =>
    .refusal_of_full (l := [.holding (.onConnection 1)]) .away hidle hfull
  exact ⟨_, _, htake, rfl, hbalanced, hrefused _ rfl (Nat.le_refl 1),
    hsame _ (hrefused _ rfl (Nat.le_refl 1))⟩

end Timetable.Server
