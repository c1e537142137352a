import Mathlib.Data.Finset.Card
import Timetable.Proofs.Server.Requests

/-!
# Connections that are lost

A server may tell in answer to anything that is said over a connection that this connection is lost.
The pool does not listen: what its holder gives back becomes the connection that came back last, so
the next who asks for one is given the lost one (`lost_connection_is_handed_out`). No step of a
crowd drops a connection (`Crowd.Sound.keeps`), so a lost one has its place for ever and no new one
is made in its stead. When as many are lost as the pool may have, nobody is given any other.
-/

namespace Timetable.Server

open Pool

/-! ### Losses -/

/-- An answer that tells that the connection is lost. -/
def Breaks (a : Except Failure Unit) : Prop :=
  ∃ message, a = .error (.server ⟨.brokenConnection, message⟩)

/-- A crowd, and the connections that are known to be lost. -/
structure Outage where
  crowd : Crowd
  lost : Finset Connection

/-- A new pool without callers, and nothing is lost. -/
def Outage.opening (conninfo : String) (maxConnections : Nat) : Outage :=
  ⟨.opening conninfo maxConnections, ∅⟩

/-- One caller does one thing, over a connection that may be lost or get lost. -/
inductive Happens : Move → Outage → Outage → Prop
  /-- Nothing is said to the server. -/
  | quiet {m s t lost} (hm : m ≠ .talk) (hstep : Step m s t) : Happens m ⟨s, lost⟩ ⟨t, lost⟩
  | talk {p q l r tx t a lost} (hsaid : Says (p, tx) a (q, t)) (ha : ¬ Breaks a) :
      Happens .talk ⟨⟨p, l ++ .holding tx :: r⟩, lost⟩ ⟨⟨q, l ++ .holding t :: r⟩, lost⟩
  | lose {p q l r tx t a lost} (hsaid : Says (p, tx) a (q, t)) (ha : Breaks a) :
      Happens .talk ⟨⟨p, l ++ .holding tx :: r⟩, lost⟩
        ⟨⟨q, l ++ .holding t :: r⟩, insert tx.connection lost⟩
  /-- No transaction can be started over a lost connection, so it is given back right away. -/
  | refuse {p l r tx lost} (hlost : tx.connection ∈ lost) :
      Happens .release ⟨⟨p, l ++ .holding tx :: r⟩, lost⟩
        ⟨⟨p.putBack tx.connection, l ++ .away :: r⟩, lost⟩

/-- What happens one after the other. -/
def Course : Outage → Outage → Prop := Relation.ReflTransGen fun s t => ∃ m, Happens m s t

/-- Whatever callers of a crowd do may happen while connections are lost. -/
theorem Step.exists_happens {m : Move} {s t : Crowd} (h : Step m s t) (lost : Finset Connection) :
    ∃ lost', Happens m ⟨s, lost⟩ ⟨t, lost'⟩ := by
  have hsays : ∀ {p q tx u a} {l r : List Caller}, Says (p, tx) a (q, u) → ∃ lost',
      Happens .talk ⟨⟨p, l ++ .holding tx :: r⟩, lost⟩ ⟨⟨q, l ++ .holding u :: r⟩, lost'⟩ := by
    intro p q tx u a l r hsaid
    by_cases ha : Breaks a
    · exact ⟨_, .lose hsaid ha⟩
    · exact ⟨lost, .talk hsaid ha⟩
  cases h with
  | send hrun => exact hsays (.send hrun)
  | commit hrun => exact hsays (.commit hrun)
  | rollback hrun => exact hsays (.rollback hrun)
  | arrive => exact ⟨lost, .quiet (by decide) .arrive⟩
  | answer script => exact ⟨lost, .quiet (by decide) (.answer script)⟩
  | take hx hoffer => exact ⟨lost, .quiet (by decide) (.take hx hoffer)⟩
  | reserve hx hoffer => exact ⟨lost, .quiet (by decide) (.reserve hx hoffer)⟩
  | wait hx hoffer => exact ⟨lost, .quiet (by decide) (.wait hx hoffer)⟩
  | connect hrun => exact ⟨lost, .quiet (by decide) (.connect hrun)⟩
  | fail hrun => exact ⟨lost, .quiet (by decide) (.fail hrun)⟩
  | release => exact ⟨lost, .quiet (by decide) .release⟩

theorem Moves.course {s t : Crowd} (h : Moves s t) (lost : Finset Connection) :
    ∃ lost', Course ⟨s, lost⟩ ⟨t, lost'⟩ := by
  induction h with
  | refl => exact ⟨lost, .refl⟩
  | tail _ hstep ih =>
    obtain ⟨m, hstep⟩ := hstep
    obtain ⟨lost', hcourse⟩ := ih
    obtain ⟨lost'', hhappens⟩ := hstep.exists_happens lost'
    exact ⟨lost'', hcourse.tail ⟨m, hhappens⟩⟩

/-! ### What a call hands out -/

section

variable {s t : Crowd} {c : Connection}

/-- Who begins a transaction is given the connection that came back last. -/
theorem Call.held_of_last (h : Call .begin s t) (hlast : s.account.idle.getLast? = some c) :
    t.account.held.Perm (c :: s.account.held) := by
  cases h with
  | @begin p q l r x tx hx hrun =>
    obtain ⟨d, o, hacquire, hrest⟩ := Action.run_bind_eq_ok hrun
    obtain ⟨idle, hidle⟩ := List.getLast?_eq_some_iff.1 hlast
    have hidle : p.idle = idle ++ [c] := hidle
    rw [acquire_of_idle hidle] at hacquire
    cases hacquire
    cases hrest
    exact (Crowd.turns_holding p _ l r hx _).2

theorem Call.begin_of_idle {p : Pool} {l r : List Caller} {x : Caller} {idle : List Connection}
    (hx : Caller.Looks x) (hidle : p.idle = idle ++ [c]) :
    Call .begin ⟨p, l ++ x :: r⟩
      ⟨say (.begin c) { p with idle }, l ++ .holding (.onConnection c) :: r⟩ :=
  .begin hx (Action.run_bind_of_ok (acquire_of_idle hidle))

/-- Who ends a transaction leaves its connection behind all others that are not in use. -/
theorem Call.exists_last (h : Call .release s t) (hpresent : s.pool.gone = false) :
    ∃ c, t.account.idle.getLast? = some c ∧ s.account.held.Perm (c :: t.account.held) := by
  cases h with
  | @release p l r tx =>
    obtain ⟨q, halike, hrelease⟩ := release_eq p tx
    have hback := (putBack_of_alike halike hpresent tx.connection).2
    refine ⟨tx.connection, ?_, (Crowd.turns_holding _ p l r .away tx).2⟩
    show (Pool.release (p, tx)).2.idle.getLast? = _
    rw [hrelease, hback, List.getLast?_concat]

end

/-! ### No connection is dropped -/

namespace Crowd

variable {p q : Pool} {l r : List Caller} {x : Caller} {tx t : Transaction} {c : Connection}

/-- The connections of a pool, whether they are in use or not. -/
def connections (s : Crowd) : List Connection := s.account.idle ++ s.account.held

/-- The connections of a crowd, told from one of its callers. -/
theorem mem_connections :
    c ∈ connections ⟨p, l ++ x :: r⟩ ↔
      c ∈ p.idle ∨ x.connection? = some c ∨ c ∈ (l ++ r).filterMap Caller.connection? := by
  rw [connections, account_append, List.filterMap_append]
  simp only [List.mem_append, Option.mem_toList]
  tauto

theorem mem_held : tx.connection ∈ (account ⟨p, l ++ .holding tx :: r⟩).held := by
  simp [account_append, Caller.connection?]

theorem mem_connections_talk (h : p.Alike q ∧ t.connection = tx.connection) :
    c ∈ connections ⟨q, l ++ .holding t :: r⟩ ↔ c ∈ connections ⟨p, l ++ .holding tx :: r⟩ := by
  obtain ⟨⟨script, events, rfl⟩, hconnection⟩ := h
  rw [mem_connections, mem_connections, Caller.connection?, Caller.connection?, hconnection]

theorem mem_connections_putBack (hpresent : p.gone = false) :
    c ∈ connections ⟨p.putBack tx.connection, l ++ .away :: r⟩ ↔
      c ∈ connections ⟨p, l ++ .holding tx :: r⟩ := by
  rw [putBack_of_present hpresent, mem_connections, mem_connections]
  simp only [Caller.connection?, List.mem_append, List.mem_singleton, Option.some.injEq,
    reduceCtorEq, false_or, or_assoc, eq_comm (a := c)]

end Crowd

/-- Who looks into the pool has no connection. -/
theorem Caller.Looks.connection?_eq {x : Caller} (hx : x.Looks) : x.connection? = none := by
  cases hx <;> rfl

/-- A step may add a connection, but it drops none. -/
theorem Crowd.Sound.keeps {capacity : Nat} {s t : Crowd} {m : Move} {c : Connection}
    (h : Sound capacity s) (hstep : Step m s t) (hc : c ∈ s.connections) : c ∈ t.connections := by
  cases hstep with
  | arrive => exact hc
  | answer script => exact hc
  | take hx hoffer =>
    obtain ⟨idle, hidle, rfl⟩ := offer_eq_connection hoffer
    rw [mem_connections, hidle, hx.connection?_eq, List.mem_append, List.mem_singleton] at hc
    rw [mem_connections]
    rcases hc with (hc | rfl) | hc | hc
    · exact .inl hc
    · exact .inr (.inl rfl)
    · cases hc
    · exact .inr (.inr hc)
  | reserve hx hoffer =>
    obtain ⟨-, rfl⟩ := offer_eq_place hoffer
    rw [mem_connections, hx.connection?_eq] at hc
    exact mem_connections.2 hc
  | wait hx hoffer =>
    obtain ⟨-, -, rfl⟩ := offer_eq_nothing hoffer
    rw [mem_connections, hx.connection?_eq] at hc
    exact mem_connections.2 hc
  | connect hrun =>
    obtain ⟨-, script, events, rfl⟩ := connect_eq_ok hrun
    rcases mem_connections.1 hc with hc | hc | hc
    · exact mem_connections.2 (.inl hc)
    · cases hc
    · exact mem_connections.2 (.inr (.inr hc))
  | fail hrun =>
    obtain ⟨made, -, script, events, rfl⟩ := connect_eq_error hrun
    have hrest := mem_connections.1 hc
    exact mem_connections.2 hrest
  | send hrun => exact (mem_connections_talk ((alike_send hrun).imp_right (congrArg _))).2 hc
  | commit hrun => exact (mem_connections_talk (alike_commit hrun)).2 hc
  | rollback hrun => exact (mem_connections_talk (alike_rollback hrun)).2 hc
  | @release p l r tx =>
    obtain ⟨q, halike, hfinish⟩ := p.finish_eq tx
    rw [hfinish]
    have hsound : Sound capacity ⟨q, l ++ .holding tx :: r⟩ := h.talk ⟨halike, rfl⟩
    apply (mem_connections_putBack hsound.present).2
    exact (mem_connections_talk ⟨halike, rfl⟩).2 hc

/-! ### Lost connections -/

namespace Outage

variable {capacity : Nat} {s t : Outage} {m : Move} {c : Connection}

/-- The crowd is in order, and what has been lost is among the connections of the pool. -/
structure Sound (capacity : Nat) (s : Outage) : Prop where
  crowd : s.crowd.Sound capacity
  kept : ∀ c ∈ s.lost, c ∈ s.crowd.connections

theorem Sound.opening (conninfo : String) (maxConnections : Nat) :
    Sound (max 1 maxConnections) (.opening conninfo maxConnections) where
  crowd := .opening conninfo maxConnections
  kept c hc := absurd hc (Finset.notMem_empty c)

/-- As long as nothing more is lost, nothing of what is lost is dropped. -/
theorem Sound.step (h : Sound capacity s) {u : Crowd} (hstep : Step m s.crowd u) :
    Sound capacity ⟨u, s.lost⟩ where
  crowd := h.crowd.step hstep
  kept c hc := h.crowd.keeps hstep (h.kept c hc)

theorem Sound.happens (h : Sound capacity s) (hstep : Happens m s t) :
    Sound capacity t ∧ s.lost ⊆ t.lost := by
  cases hstep with
  | quiet hm hstep =>
    exact ⟨h.step hstep, subset_rfl⟩
  | talk hsaid ha =>
    exact ⟨h.step hsaid.step, subset_rfl⟩
  | lose hsaid ha =>
    have hsound := h.step hsaid.step
    refine ⟨⟨hsound.crowd, fun c hc => ?_⟩, Finset.subset_insert _ _⟩
    rcases Finset.mem_insert.1 hc with rfl | hc
    · exact (h.crowd.keeps hsaid.step) (Crowd.mem_connections.2 (.inr (.inl rfl)))
    · exact hsound.kept c hc
  | refuse hlost =>
    refine ⟨⟨h.crowd.putBack, fun c hc => ?_⟩, subset_rfl⟩
    exact (Crowd.mem_connections_putBack h.crowd.present).2 (h.kept c hc)

theorem Sound.course (h : Sound capacity s) (hcourse : Course s t) :
    Sound capacity t ∧ s.lost ⊆ t.lost := by
  induction hcourse with
  | refl => exact ⟨h, subset_rfl⟩
  | tail _ hstep ih =>
    obtain ⟨hsound, hlost⟩ := ih.1.happens hstep.choose_spec
    exact ⟨hsound, ih.2.trans hlost⟩

/-- Who gives a connection back leaves it behind all others that are not in use. -/
theorem Sound.release (h : Sound capacity s) (hstep : Happens .release s t) :
    ∃ c ∈ s.crowd.account.held, t.crowd.pool.live = s.crowd.pool.live ∧
      t.crowd.pool.idle = s.crowd.pool.idle ++ [c] := by
  cases hstep with
  | quiet hm hstep =>
    cases hstep with
    | @release p l r tx =>
      obtain ⟨q, halike, hfinish⟩ := p.finish_eq tx
      have hback := putBack_of_alike halike h.crowd.present tx.connection
      exact ⟨tx.connection, Crowd.mem_held, hfinish ▸ hback⟩
  | @refuse p l r tx lost hlost =>
    have hback := putBack_of_alike (.refl p) h.crowd.present tx.connection
    exact ⟨tx.connection, Crowd.mem_held, hback⟩

/-- A lost connection is handed out exactly if it is the one that came back last. -/
theorem Sound.acquire_iff (h : Sound capacity s) (hc : c ∈ s.lost) :
    (acquire.run s.crowd.pool).1 = .ok c ↔ s.crowd.pool.idle.getLast? = some c := by
  constructor
  · intro hacquire
    -- A new connection is none that has been made, so it cannot have been lost.
    apply (acquire_eq_ok (Prod.ext hacquire rfl)).resolve_right
    rintro rfl
    exact Nat.not_succ_le_self _ (h.crowd.made _ (h.kept _ hc))
  · intro hlast
    obtain ⟨idle, hidle⟩ := List.getLast?_eq_some_iff.1 hlast
    rw [acquire_of_idle hidle]

/-- Each lost connection takes a place that no other can have. -/
theorem Sound.live_eq (h : Sound capacity s) :
    s.crowd.account.live = s.lost.card +
      ((s.crowd.connections.filter (· ∉ s.lost)).length + s.crowd.account.connecting) := by
  have hnodup : s.crowd.connections.Nodup := h.crowd.balanced.nodup
  have hlost : (s.crowd.connections.filter (· ∈ s.lost)).toFinset = s.lost := by
    ext c
    simpa using h.kept c
  have hcard : (s.crowd.connections.filter (· ∈ s.lost)).length = s.lost.card := by
    rw [← List.toFinset_card_of_nodup (hnodup.filter _), hlost]
  have hsplit := List.length_eq_length_filter_add (l := s.crowd.connections) (· ∈ s.lost)
  have hlive := h.crowd.balanced.live_eq
  rw [← List.length_append, ← Crowd.connections, hsplit, hcard] at hlive
  simpa [Nat.add_assoc] using hlive

/-- When as many connections are lost as a pool may have, there are no others. -/
theorem Sound.exhausted (h : Sound capacity s) (hall : capacity ≤ s.lost.card) :
    (∃ c ∈ s.lost, (acquire.run s.crowd.pool).1 = .ok c) ∨
      acquire.run s.crowd.pool = (.error .waiting, s.crowd.pool) := by
  have hlive := h.live_eq
  have hle := h.crowd.balanced.live_le
  rcases List.eq_nil_or_concat' s.crowd.pool.idle with hidle | ⟨idle, c, hidle⟩
  · right
    apply acquire_of_full hidle
    have hfull : capacity ≤ s.crowd.account.live := by omega
    rwa [h.crowd.capacity_eq]
  · left
    have hnone : s.crowd.connections.filter (· ∉ s.lost) = [] := by
      apply List.length_eq_zero_iff.1
      omega
    have hc : c ∈ s.crowd.connections := by
      apply List.mem_append_left
      show c ∈ s.crowd.pool.idle
      simp [hidle]
    have hlost : c ∈ s.lost := by
      simpa using List.filter_eq_nil_iff.1 hnone c hc
    exact ⟨c, hlost, (h.acquire_iff hlost).2 (hidle ▸ List.getLast?_concat)⟩

end Outage

/-- A connection that is lost stays in the pool for ever and keeps its place, so that there is room
for so many fewer others, whatever happens in whatever order. Who gives it back, in whatever state
the transaction is, leaves it where the next who asks for a connection is handed it; a lost one is
handed out exactly if it came back last. When as many are lost as the pool may have, whoever asks is
handed a lost one or has to wait until one comes back. So it is with the calls on a store: none of
them drops a lost connection, and the one that begins a transaction is given the connection that
came back last, be it lost or not. -/
theorem lost_connections_come_back {conninfo : String} {maxConnections : Nat} {s : Outage}
    (h : Course (.opening conninfo maxConnections) s) :
    s.crowd.account.Balanced (max 1 maxConnections) ∧
      (∀ t, Course s t → ∀ c ∈ s.lost, c ∈ t.lost ∧ c ∈ t.crowd.connections) ∧
      s.crowd.account.live = s.lost.card +
        ((s.crowd.connections.filter (· ∉ s.lost)).length + s.crowd.account.connecting) ∧
      (∀ t, Happens .release s t → ∃ c ∈ s.crowd.account.held,
        t.crowd.account.live = s.crowd.account.live ∧
          acquire.run t.crowd.pool =
            (.ok c, { t.crowd.pool with idle := s.crowd.account.idle })) ∧
      (∀ tx, (acquire.run (release (s.crowd.pool, tx)).2).1 = .ok tx.connection) ∧
      (∀ c ∈ s.lost, (acquire.run s.crowd.pool).1 = .ok c ↔
        s.crowd.account.idle.getLast? = some c) ∧
      (max 1 maxConnections ≤ s.lost.card →
        (∃ c ∈ s.lost, (acquire.run s.crowd.pool).1 = .ok c) ∨
          acquire.run s.crowd.pool = (.error .waiting, s.crowd.pool)) ∧
      (∀ d t, Call d s.crowd t →
        ∃ lost, Course s ⟨t, lost⟩ ∧ s.lost ⊆ lost ∧ ∀ c ∈ lost, c ∈ t.connections) ∧
      (∀ t c, Call .begin s.crowd t → s.crowd.account.idle.getLast? = some c →
        t.account.held.Perm (c :: s.crowd.account.held)) ∧
      ∀ t u, Call .release s.crowd t → Call .begin t u →
        u.account.held.Perm s.crowd.account.held := by
  have hsound := ((Outage.Sound.opening conninfo maxConnections).course h).1
  refine ⟨hsound.crowd.balanced, ?_, hsound.live_eq, ?_, ?_, fun c => hsound.acquire_iff,
    hsound.exhausted, ?_, ?_, ?_⟩
  · intro t ht c hc
    obtain ⟨hsound', hlost⟩ := hsound.course ht
    exact ⟨hlost hc, hsound'.kept c (hlost hc)⟩
  · intro t ht
    obtain ⟨c, hc, hlive, hidle⟩ := hsound.release ht
    exact ⟨c, hc, hlive, acquire_of_idle hidle⟩
  · intro tx
    obtain ⟨q, halike, hrelease⟩ := release_eq s.crowd.pool tx
    have hback := putBack_of_alike halike hsound.crowd.present tx.connection
    rw [hrelease, acquire_of_idle hback.2]
  · intro d t hcall
    obtain ⟨lost, hcourse⟩ := hcall.moves.course s.lost
    obtain ⟨hsound', hlost⟩ := hsound.course hcourse
    exact ⟨lost, hcourse, hlost, hsound'.kept⟩
  · intro t c hcall hlast
    exact hcall.held_of_last hlast
  · intro t u hrelease hbegin
    obtain ⟨c, hlast, hperm⟩ := hrelease.exists_last hsound.crowd.present
    exact (hbegin.held_of_last hlast).trans hperm.symm

/-- A pool of one connection: a statement and the rollback after it are answered that the connection
is lost, and then it is given back. -/
theorem course_lost : ∃ p : Pool, p.idle = [1] ∧ p.live = 1 ∧
    Course (.opening "" 1) ⟨⟨p, [.away]⟩, {1}⟩ := by
  let fault : Fault := ⟨.brokenConnection, "Lost connection to the database server."⟩
  obtain ⟨q, hrun⟩ := exists_connect_eq_ok (p := reserve (create "" 1)) rfl rfl
  have harrive : Course (.opening "" 1) ⟨⟨create "" 1, [.away]⟩, ∅⟩ :=
    .single ⟨_, .quiet (by decide) .arrive⟩
  have hreserve := harrive.tail ⟨_, .quiet (by decide) (.reserve (l := []) .away rfl)⟩
  have hconnect := hreserve.tail ⟨_, .quiet (by decide) (.connect (l := []) hrun)⟩
  have hanswer := hconnect.tail
    ⟨_, .quiet (by decide) (.answer ⟨[.fault fault], [], [], [some fault], []⟩)⟩
  have hsend := hanswer.tail
    ⟨_, .lose (l := []) (.send (e := .prepared "get_flow_run" [some "run"]) rfl) ⟨_, rfl⟩⟩
  have hrollback := hsend.tail ⟨_, .lose (l := []) (.rollback rfl) ⟨_, rfl⟩⟩
  have hrelease := hrollback.tail ⟨_, .quiet (by decide) (.release (l := []))⟩
  obtain ⟨-, script, events, rfl⟩ := connect_eq_ok hrun
  exact ⟨_, rfl, rfl, hrelease⟩

/-- The only connection is lost, and the next caller gets it. -/
theorem lost_connections_come_back_one : ∃ s t, Course (.opening "" 1) s ∧ s.lost = {1} ∧
    s.crowd.account = ⟨1, [1], [], 0⟩ ∧ (acquire.run s.crowd.pool).1 = .ok 1 ∧
    (∀ t, Course s t → 1 ∈ t.lost) ∧ Call .begin s.crowd t ∧ t.account.held.Perm [1] := by
  obtain ⟨p, hidle, hlive, hcourse⟩ := course_lost
  obtain ⟨-, hkept, -, -, -, hlast, -, -, hbegin, -⟩ := lost_connections_come_back hcourse
  have hlist : p.idle.getLast? = some 1 := by
    rw [hidle]
    rfl
  have hback : p.idle = [] ++ [1] := hidle
  have hcall := Call.begin_of_idle (l := []) (r := []) .away hback
  refine ⟨_, _, hcourse, rfl, ?_, ?_, ?_, hcall, hbegin _ 1 hcall hlist⟩
  · rw [Crowd.account, hidle, hlive]
    rfl
  · exact (hlast 1 (Finset.mem_singleton_self 1)).2 hlist
  · intro t ht
    exact (hkept t ht 1 (Finset.mem_singleton_self 1)).1

/-- A caller is given a connection that is not in use and is known to be lost. -/
theorem lost_connection_is_handed_out : ∃ s t, Course (.opening "" 1) s ∧ Happens .take s t ∧
    ∃ c ∈ s.lost, c ∈ s.crowd.account.idle ∧ c ∈ t.crowd.account.held := by
  obtain ⟨p, hidle, -, hcourse⟩ := course_lost
  have hoffer : p.offer = (.connection 1, { p with idle := [] }) := by
    rw [offer, hidle]
    rfl
  refine ⟨_, _, hcourse, .quiet (by decide) (.take (l := []) .away hoffer), 1,
    Finset.mem_singleton_self 1, ?_, List.mem_singleton_self 1⟩
  show 1 ∈ p.idle
  rw [hidle]
  exact List.mem_singleton_self 1

end Timetable.Server
