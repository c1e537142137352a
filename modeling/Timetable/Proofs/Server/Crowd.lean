import Mathlib.Logic.Relation
import Timetable.Server.Pool

/-!
# Callers that share a pool

Any number of callers ask a pool for connections, talk over them and give them back. What one of
them does in one go, without another getting in between, is a `Step`; what they do together is any
sequence of steps. The places of a pool are then always accounted for: each is taken by a connection
that is not in use, by one that a caller holds, or by one that is being made, and no connection
appears twice (`Crowd.Sound`).
-/

namespace Timetable.Server

/-! ### Pools -/

namespace Pool

variable {p q : Pool} {tx : Transaction} {c : Connection} {idle : List Connection}

/-- Two pools differ in nothing but what has been said and what is still to be answered. -/
def Alike (p q : Pool) : Prop := ∃ script events, q = { p with script, events }

theorem Alike.refl (p : Pool) : p.Alike p := ⟨p.script, p.events, rfl⟩

theorem Alike.trans {r : Pool} (h : p.Alike q) (h' : q.Alike r) : p.Alike r := by
  obtain ⟨script, events, rfl⟩ := h
  obtain ⟨script', events', rfl⟩ := h'
  exact ⟨script', events', rfl⟩

/-- What a pool takes out is the connection that came back last. -/
theorem offer_eq_connection {c : Connection} (h : p.offer = (.connection c, q)) :
    ∃ idle, p.idle = idle ++ [c] ∧ q = { p with idle } := by
  rw [offer] at h
  split at h
  · next hlast =>
    cases h
    obtain ⟨idle, hidle⟩ := List.getLast?_eq_some_iff.1 hlast
    exact ⟨idle, hidle, by rw [hidle, List.dropLast_concat]⟩
  · split at h <;> cases h

/-- A place is kept only where there is room. -/
theorem offer_eq_place (h : p.offer = (.place, q)) : p.live < p.capacity ∧ q = p.reserve := by
  rw [offer] at h
  split at h
  · cases h
  · split at h
    · next hroom =>
      cases h
      exact ⟨hroom, rfl⟩
    · cases h

/-- A pool has nothing only if it has no connection and no room. -/
theorem offer_eq_nothing (h : p.offer = (.nothing, q)) :
    p.idle = [] ∧ p.capacity ≤ p.live ∧ q = p := by
  rw [offer] at h
  split at h
  · cases h
  · next hlast =>
    split at h
    · cases h
    · next hroom =>
      cases h
      exact ⟨List.getLast?_eq_none_iff.1 hlast, Nat.le_of_not_lt hroom, rfl⟩

theorem alike_prepare {statements : List (String × String)} {a : Except Failure Unit}
    (h : (prepare statements).run p = (a, q)) : p.Alike q := by
  induction statements generalizing p with
  | nil =>
    cases h
    exact .refl q
  | cons statement statements ih =>
    simp only [Action.run, prepare] at h
    split at h
    · cases h
      exact ⟨_, _, rfl⟩
    · exact Alike.trans ⟨_, _, rfl⟩ (ih h)

/-- A new connection has a number that no connection has had. -/
theorem connect_eq_ok {c : Connection} (h : connect.run p = (.ok c, q)) :
    c = p.made + 1 ∧ Alike { p with made := c } q := by
  simp only [Action.run, connect] at h
  split at h
  · cases h
  split at h
  · next r hprepare =>
    cases h
    exact ⟨rfl, Alike.trans ⟨_, _, rfl⟩ (alike_prepare hprepare)⟩
  · cases h

/-- An attempt that fails gives the place back. -/
theorem connect_eq_error {e : Failure} (h : connect.run p = (.error e, q)) :
    ∃ made, p.made ≤ made ∧ Alike { p.giveUp with made } q := by
  simp only [Action.run, connect] at h
  split at h
  · cases h
    exact ⟨p.made, Nat.le_refl _, _, _, rfl⟩
  split at h
  · cases h
  · next r hprepare =>
    cases h
    obtain ⟨script, events, rfl⟩ := alike_prepare hprepare
    exact ⟨p.made + 1, Nat.le_succ _, _, _, rfl⟩

/-- A statement is prepared unless the server says otherwise. -/
theorem prepares_ne_nil {statements : List (String × String)} {e : Failure}
    (h : (prepare statements).run p = (.error e, q)) : p.script.prepares ≠ [] := by
  induction statements generalizing p with
  | nil => cases h
  | cons statement statements ih =>
    simp only [Action.run, prepare] at h
    intro hnil
    split at h
    · next f hanswer =>
      rw [Script.nextPrepare, hnil] at hanswer
      cases hanswer
    · refine ih h ?_
      show p.script.prepares.tail = []
      rw [hnil, List.tail_nil]

/-- A server that refuses nothing lets a connection be made. -/
theorem exists_connect_eq_ok (hconnects : p.script.connects = [])
    (hprepares : p.script.prepares = []) : ∃ q, connect.run p = (.ok (p.made + 1), q) := by
  have hanswer : p.script.nextConnect.1 = none := by
    rw [Script.nextConnect, hconnects]
    rfl
  simp only [Action.run, connect, hanswer]
  split
  · exact ⟨_, rfl⟩
  · next hprepare =>
    have hne := prepares_ne_nil hprepare
    exact absurd hprepares hne

theorem alike_send {e : Event} {a : Except Failure (List Row × Nat)} {t : Transaction}
    (h : (send e).run (p, tx) = (a, q, t)) : p.Alike q ∧ t = tx := by
  simp only [Action.run, send] at h
  split at h
  all_goals
    cases h
    exact ⟨⟨_, _, rfl⟩, rfl⟩

theorem alike_commit {a : Except Failure Unit} {t : Transaction}
    (h : commit.run (p, tx) = (a, q, t)) : p.Alike q ∧ t.connection = tx.connection := by
  simp only [Action.run, commit] at h
  split at h
  all_goals
    cases h
    exact ⟨⟨_, _, rfl⟩, rfl⟩

theorem alike_rollback {a : Except Failure Unit} {t : Transaction}
    (h : rollback.run (p, tx) = (a, q, t)) : p.Alike q ∧ t.connection = tx.connection := by
  simp only [Action.run, rollback] at h
  split at h
  all_goals
    cases h
    exact ⟨⟨_, _, rfl⟩, rfl⟩

/-- As long as the pool is there, what is put back comes after what is in it. -/
theorem putBack_of_present (h : p.gone = false) (c : Connection) :
    p.putBack c = { p with idle := p.idle ++ [c] } :=
  if_neg (Bool.eq_false_iff.1 h)

/-- What is left of a transaction is its connection, which is put back. -/
theorem finish_eq (p : Pool) (tx : Transaction) :
    ∃ q, p.Alike q ∧ p.finish tx = q.putBack tx.connection := by
  cases hsettled : tx.settled with
  | false => exact ⟨p.say (.close tx.connection), ⟨_, _, rfl⟩, by rw [finish, hsettled]; rfl⟩
  | true => exact ⟨p, .refl p, by rw [finish, hsettled]; rfl⟩

/-! ### What a pool hands out -/

/-- The connection that came back last is handed out first. -/
theorem acquire_of_idle (h : p.idle = idle ++ [c]) :
    acquire.run p = (.ok c, { p with idle }) := by
  have hoffer : p.offer = (.connection c, { p with idle }) := by
    rw [offer, h, List.getLast?_concat]
    simp only [List.dropLast_concat]
  simp only [Action.run, acquire, hoffer]

/-- Where every place is taken by a connection that is in use, one has to wait. -/
theorem acquire_of_full (hidle : p.idle = []) (hfull : p.capacity ≤ p.live) :
    acquire.run p = (.error .waiting, p) := by
  have hoffer : p.offer = (.nothing, p) := by
    rw [offer, hidle, List.getLast?_nil]
    exact if_neg (Nat.not_lt_of_le hfull)
  simp only [Action.run, acquire, hoffer]

/-- What is handed out is the connection that came back last, or it is new. -/
theorem acquire_eq_ok (h : acquire.run p = (.ok c, q)) :
    p.idle.getLast? = some c ∨ c = p.made + 1 := by
  rcases hoffer : p.offer with ⟨d | - | -, o⟩
  all_goals simp only [Action.run, acquire, hoffer] at h
  · cases h
    obtain ⟨idle, hidle, -⟩ := offer_eq_connection hoffer
    exact .inl (hidle ▸ List.getLast?_concat)
  · obtain ⟨-, rfl⟩ := offer_eq_place hoffer
    exact .inr (connect_eq_ok h).1
  · cases h

/-- As long as the pool is there, what is put back comes after what is in it and has its place. -/
theorem putBack_of_alike (h : p.Alike q) (hpresent : p.gone = false) (c : Connection) :
    (q.putBack c).live = p.live ∧ (q.putBack c).idle = p.idle ++ [c] := by
  obtain ⟨script, events, rfl⟩ := h
  have hback := putBack_of_present (p := { p with script, events }) hpresent c
  rw [hback]
  exact ⟨rfl, rfl⟩

/-- Whatever has become of a transaction, the connection is put back. -/
theorem release_eq (p : Pool) (tx : Transaction) :
    ∃ q, p.Alike q ∧ (release (p, tx)).2 = q.putBack tx.connection := by
  rw [release]
  split
  · exact p.finish_eq tx
  split
  all_goals
    next q t hrollback =>
    obtain ⟨halike, hconnection⟩ := alike_rollback hrollback
    obtain ⟨o, halike', hfinish⟩ := q.finish_eq t
    exact ⟨o, halike.trans halike', hconnection ▸ hfinish⟩

end Pool

/-! ### Callers -/

/-- Where a caller stands. One that wants several connections at a time counts as several. -/
inductive Caller
  | away
  | waiting
  /-- A place is kept for the connection that is being made. -/
  | connecting
  | holding (tx : Transaction)

namespace Caller

/-- The connection that a caller has. -/
def connection? : Caller → Option Connection
  | holding tx => some tx.connection
  | away | waiting | connecting => none

/-- Whether a connection is being made for a caller. -/
def isConnecting : Caller → Bool
  | connecting => true
  | away | waiting | holding _ => false

/-- A caller may look into the pool. -/
inductive Looks : Caller → Prop
  | away : Looks away
  | waiting : Looks waiting

end Caller

/-- A pool and its callers. -/
structure Crowd where
  pool : Pool
  callers : List Caller

/-- What the places of a pool are used for. -/
structure Account where
  /-- How many places are taken. -/
  live : Nat
  idle : List Connection
  /-- The connections of callers, one for each of them. -/
  held : List Connection
  /-- How many connections are being made. -/
  connecting : Nat
deriving DecidableEq, Repr

namespace Account

/-- Takes one place more, for a connection that is being made. -/
def keepPlace (a : Account) : Account :=
  { a with live := a.live + 1, connecting := a.connecting + 1 }

theorem keepPlace_inj {a b : Account} (h : a.keepPlace = b.keepPlace) : a = b := by
  cases a
  cases b
  simpa [keepPlace] using h

/-- Each place is taken for one reason, and each connection is in one place. -/
structure Balanced (capacity : Nat) (a : Account) : Prop where
  live_eq : a.live = a.idle.length + a.held.length + a.connecting
  live_le : a.live ≤ capacity
  nodup : (a.idle ++ a.held).Nodup

theorem Balanced.keepPlace {capacity : Nat} {a : Account} (h : a.Balanced capacity)
    (hroom : a.live < capacity) : a.keepPlace.Balanced capacity where
  live_eq := congrArg (· + 1) h.live_eq
  live_le := hroom
  nodup := h.nodup

theorem Balanced.of_keepPlace {capacity : Nat} {a : Account} (h : a.keepPlace.Balanced capacity) :
    a.Balanced capacity where
  live_eq := Nat.succ.inj h.live_eq
  live_le := Nat.le_of_succ_le h.live_le
  nodup := h.nodup

end Account

namespace Crowd

/-- A new pool without callers. -/
def opening (conninfo : String) (maxConnections : Nat) : Crowd :=
  ⟨.create conninfo maxConnections, []⟩

/-- What the places of the pool are used for. -/
def account (s : Crowd) : Account :=
  ⟨s.pool.live, s.pool.idle, s.callers.filterMap Caller.connection?,
    s.callers.countP Caller.isConnecting⟩

end Crowd

/-! ### Steps -/

/-- What happens in a step. -/
inductive Move
  | arrive
  /-- The server makes up its mind about what it will answer. -/
  | answer
  | take
  | reserve
  | wait
  | connect
  | fail
  | talk
  | release
deriving DecidableEq, Repr

open Pool in
/-- One caller does one thing. -/
inductive Step : Move → Crowd → Crowd → Prop
  /-- Somebody comes who has not been there before. -/
  | arrive {p cs} : Step .arrive ⟨p, cs⟩ ⟨p, .away :: cs⟩
  | answer {p : Pool} {cs} (script : Script) : Step .answer ⟨p, cs⟩ ⟨{ p with script }, cs⟩
  /-- A caller looks into the pool and finds a connection. -/
  | take {p q l r x c} (hx : Caller.Looks x) (hoffer : p.offer = (.connection c, q)) :
      Step .take ⟨p, l ++ x :: r⟩ ⟨q.say (.begin c), l ++ .holding (.onConnection c) :: r⟩
  /-- A caller finds no connection, but room for one. -/
  | reserve {p q l r x} (hx : Caller.Looks x) (hoffer : p.offer = (.place, q)) :
      Step .reserve ⟨p, l ++ x :: r⟩ ⟨q, l ++ .connecting :: r⟩
  /-- A caller finds nothing and will look again. -/
  | wait {p q l r x} (hx : Caller.Looks x) (hoffer : p.offer = (.nothing, q)) :
      Step .wait ⟨p, l ++ x :: r⟩ ⟨q, l ++ .waiting :: r⟩
  | connect {p q l r c} (hrun : Pool.connect.run p = (.ok c, q)) :
      Step .connect ⟨p, l ++ .connecting :: r⟩
        ⟨q.say (.begin c), l ++ .holding (.onConnection c) :: r⟩
  /-- The server cannot be reached or does not prepare a statement. -/
  | fail {p q l r e} (hrun : Pool.connect.run p = (.error e, q)) :
      Step .fail ⟨p, l ++ .connecting :: r⟩ ⟨q, l ++ .away :: r⟩
  | send {p q l r tx t a e} (hrun : (send e).run (p, tx) = (a, q, t)) :
      Step .talk ⟨p, l ++ .holding tx :: r⟩ ⟨q, l ++ .holding t :: r⟩
  | commit {p q l r tx t a} (hrun : commit.run (p, tx) = (a, q, t)) :
      Step .talk ⟨p, l ++ .holding tx :: r⟩ ⟨q, l ++ .holding t :: r⟩
  | rollback {p q l r tx t a} (hrun : rollback.run (p, tx) = (a, q, t)) :
      Step .talk ⟨p, l ++ .holding tx :: r⟩ ⟨q, l ++ .holding t :: r⟩
  | release {p l r tx} :
      Step .release ⟨p, l ++ .holding tx :: r⟩ ⟨p.finish tx, l ++ .away :: r⟩

/-- What callers do one after the other, in whatever order. -/
def Moves : Crowd → Crowd → Prop := Relation.ReflTransGen fun s t => ∃ m, Step m s t

/-! ### What stays true -/

/-- The account of a crowd, told from one of its callers. -/
theorem Crowd.account_append (p : Pool) (l : List Caller) (x : Caller) (r : List Caller) :
    Crowd.account ⟨p, l ++ x :: r⟩ =
      ⟨p.live, p.idle,
        l.filterMap Caller.connection? ++ (x.connection?.toList ++ r.filterMap Caller.connection?),
        l.countP Caller.isConnecting + (x.isConnecting.toNat + r.countP Caller.isConnecting)⟩ := by
  cases x <;> simp [account, Caller.connection?, Caller.isConnecting, List.filterMap_cons,
    List.countP_cons, Nat.add_comm]

/-- A caller that waits counts as little as one that is away. -/
theorem Crowd.account_of_looks (p : Pool) (l r : List Caller) {x y : Caller} (hx : Caller.Looks x)
    (hy : Caller.Looks y) : Crowd.account ⟨p, l ++ x :: r⟩ = Crowd.account ⟨p, l ++ y :: r⟩ := by
  rw [account_append, account_append]
  cases hx <;> cases hy <;> rfl

/-- Nobody's place changes by what is said over a connection. -/
theorem Crowd.account_talk {p q : Pool} {tx t : Transaction} (l r : List Caller)
    (h : p.Alike q ∧ t.connection = tx.connection) :
    Crowd.account ⟨q, l ++ .holding t :: r⟩ = Crowd.account ⟨p, l ++ .holding tx :: r⟩ := by
  obtain ⟨⟨script, events, rfl⟩, hconnection⟩ := h
  simp only [account_append, Caller.connection?, Caller.isConnecting, hconnection]

/-- A crowd is in order: its account is balanced, its pool is there and as large as it was, and the
connections that it has are among those that have been made. -/
structure Crowd.Sound (capacity : Nat) (s : Crowd) : Prop where
  balanced : s.account.Balanced capacity
  capacity_eq : s.pool.capacity = capacity
  present : s.pool.gone = false
  made : ∀ c ∈ s.account.idle ++ s.account.held, c ≤ s.pool.made

namespace Crowd.Sound

variable {capacity : Nat} {p q : Pool} {l r : List Caller} {x y : Caller} {s t : Crowd} {m : Move}

theorem opening (conninfo : String) (maxConnections : Nat) :
    Sound (max 1 maxConnections) (.opening conninfo maxConnections) where
  balanced := ⟨rfl, Nat.zero_le _, List.nodup_nil⟩
  capacity_eq := rfl
  present := rfl
  made _ hc := nomatch hc

/-- A step that only moves connections from one place to another keeps order. -/
theorem of_perm (h : Sound capacity s)
    (hperm : (t.account.idle ++ t.account.held).Perm (s.account.idle ++ s.account.held))
    (hlive : t.account.live = s.account.live)
    (hconnecting : t.account.connecting = s.account.connecting)
    (hcapacity : t.pool.capacity = s.pool.capacity) (hgone : t.pool.gone = s.pool.gone)
    (hmade : t.pool.made = s.pool.made) : Sound capacity t := by
  have hlength := hperm.length_eq
  rw [List.length_append, List.length_append] at hlength
  constructor
  · exact ⟨by rw [hlive, h.balanced.live_eq, hconnecting, hlength],
      hlive ▸ h.balanced.live_le, hperm.nodup_iff.2 h.balanced.nodup⟩
  · exact hcapacity.trans h.capacity_eq
  · exact hgone.trans h.present
  · exact fun c hc => hmade ▸ h.made c (hperm.mem_iff.1 hc)

/-- Whatever a caller says, the connections stay where they are. -/
theorem talk {tx tx' : Transaction} (h : Sound capacity ⟨p, l ++ .holding tx :: r⟩)
    (htalk : p.Alike q ∧ tx'.connection = tx.connection) :
    Sound capacity ⟨q, l ++ .holding tx' :: r⟩ := by
  have haccount := account_talk l r htalk
  obtain ⟨⟨script, events, rfl⟩, -⟩ := htalk
  refine h.of_perm ?_ ?_ ?_ rfl rfl rfl <;> rw [haccount]

theorem perm_move (idle held held' : List Connection) (c : Connection) :
    (idle ++ (held ++ c :: held')).Perm ((idle ++ [c]) ++ (held ++ held')) := by
  rw [List.append_assoc]
  exact List.perm_middle.append_left idle

theorem take {c : Connection} (h : Sound capacity ⟨p, l ++ x :: r⟩) (hx : Caller.Looks x)
    (hoffer : p.offer = (.connection c, q)) :
    Sound capacity ⟨q.say (.begin c), l ++ .holding (.onConnection c) :: r⟩ := by
  obtain ⟨idle, hidle, rfl⟩ := Pool.offer_eq_connection hoffer
  have haccount := account_of_looks p l r hx .away
  refine h.of_perm ?_ rfl ?_ rfl rfl rfl
  · rw [haccount, account_append, account_append]
    show (idle ++ (_ ++ c :: _)).Perm (p.idle ++ _)
    rw [hidle]
    exact perm_move idle _ _ c
  · rw [haccount, account_append, account_append]
    rfl

/-- A caller waits only while callers have all the places. -/
theorem wait (h : Sound capacity ⟨p, l ++ x :: r⟩) (hx : Caller.Looks x)
    (hoffer : p.offer = (.nothing, q)) :
    (Crowd.account ⟨p, l ++ x :: r⟩).held.length +
        (Crowd.account ⟨p, l ++ x :: r⟩).connecting = capacity ∧
      Sound capacity ⟨q, l ++ .waiting :: r⟩ := by
  obtain ⟨hidle, hfull, rfl⟩ := Pool.offer_eq_nothing hoffer
  have haccount := account_of_looks q l r .waiting hx
  constructor
  · have hlive := h.balanced.live_eq
    have hle := h.balanced.live_le
    have hnone : (Crowd.account ⟨q, l ++ x :: r⟩).idle.length = 0 :=
      List.length_eq_zero_iff.2 hidle
    have hall : capacity ≤ (Crowd.account ⟨q, l ++ x :: r⟩).live := by
      rw [← h.capacity_eq]
      exact hfull
    omega
  · refine h.of_perm ?_ ?_ ?_ rfl rfl rfl <;> rw [haccount]

theorem putBack {tx : Transaction} (h : Sound capacity ⟨p, l ++ .holding tx :: r⟩) :
    Sound capacity ⟨p.putBack tx.connection, l ++ .away :: r⟩ := by
  rw [Pool.putBack_of_present h.present]
  refine h.of_perm ?_ rfl ?_ rfl rfl rfl
  · rw [account_append, account_append]
    exact (perm_move p.idle _ _ tx.connection).symm
  · rw [account_append, account_append]
    rfl

theorem finish {tx : Transaction} (h : Sound capacity ⟨p, l ++ .holding tx :: r⟩) :
    Sound capacity ⟨p.finish tx, l ++ .away :: r⟩ := by
  obtain ⟨q, halike, hfinish⟩ := p.finish_eq tx
  rw [hfinish]
  exact (h.talk ⟨halike, rfl⟩).putBack

theorem reserve (h : Sound capacity ⟨p, l ++ x :: r⟩) (hx : Caller.Looks x)
    (hoffer : p.offer = (.place, q)) :
    Crowd.account ⟨q, l ++ .connecting :: r⟩ = (Crowd.account ⟨p, l ++ x :: r⟩).keepPlace ∧
      Sound capacity ⟨q, l ++ .connecting :: r⟩ := by
  obtain ⟨hroom, rfl⟩ := Pool.offer_eq_place hoffer
  have haccount : Crowd.account ⟨p.reserve, l ++ .connecting :: r⟩ =
      (Crowd.account ⟨p, l ++ x :: r⟩).keepPlace := by
    rw [account_of_looks p l r hx .away, account_append, account_append]
    simp [Account.keepPlace, Caller.connection?, Caller.isConnecting, Pool.reserve]
    omega
  refine ⟨haccount, ?_, h.capacity_eq, h.present, ?_⟩
  · rw [haccount]
    exact h.balanced.keepPlace (h.capacity_eq ▸ hroom)
  · rw [haccount]
    exact h.made

theorem fail {e : Failure} (h : Sound capacity ⟨p, l ++ .connecting :: r⟩)
    (hrun : Pool.connect.run p = (.error e, q)) :
    Crowd.account ⟨p, l ++ .connecting :: r⟩ = (Crowd.account ⟨q, l ++ .away :: r⟩).keepPlace ∧
      Sound capacity ⟨q, l ++ .away :: r⟩ := by
  obtain ⟨made, hgrown, script, events, rfl⟩ := Pool.connect_eq_error hrun
  have hlive := h.balanced.live_eq
  have haccount : Crowd.account ⟨p, l ++ .connecting :: r⟩ =
      (Crowd.account ⟨{ p.giveUp with made, script, events }, l ++ .away :: r⟩).keepPlace := by
    rw [account_append] at hlive ⊢
    rw [account_append]
    -- The place is one of those that are counted, so there is one to give back.
    simp [Account.keepPlace, Caller.connection?, Caller.isConnecting, Pool.giveUp] at hlive ⊢
    omega
  have hmade := h.made
  rw [haccount] at hmade
  exact ⟨haccount, (haccount ▸ h.balanced).of_keepPlace, h.capacity_eq, h.present,
    fun c hc => Nat.le_trans (hmade c hc) hgrown⟩

theorem connect {c : Connection} (h : Sound capacity ⟨p, l ++ .connecting :: r⟩)
    (hrun : Pool.connect.run p = (.ok c, q)) :
    Sound capacity ⟨q.say (.begin c), l ++ .holding (.onConnection c) :: r⟩ := by
  obtain ⟨rfl, script, events, rfl⟩ := Pool.connect_eq_ok hrun
  obtain ⟨⟨hlive, hle, hnodup⟩, hcapacity, hpresent, hmade⟩ := h
  rw [account_append] at hlive hle hnodup hmade
  have hperm : ∀ idle held held' : List Connection,
      (idle ++ (held ++ (p.made + 1) :: held')).Perm
        ((p.made + 1) :: (idle ++ (held ++ held'))) := by
    intro idle held held'
    rw [← List.append_assoc, ← List.append_assoc]
    exact List.perm_middle
  -- All connections there are have smaller numbers than the new one.
  have hnew : p.made + 1 ∉ p.idle ++ (l.filterMap Caller.connection? ++
      r.filterMap Caller.connection?) := fun hc => Nat.not_succ_le_self _ (hmade _ hc)
  refine ⟨?_, hcapacity, hpresent, ?_⟩
  · rw [account_append]
    refine ⟨?_, hle, (hperm _ _ _).nodup_iff.2 (List.nodup_cons.2 ⟨hnew, hnodup⟩)⟩
    simp [Caller.connection?, Caller.isConnecting, Pool.say] at hlive ⊢
    omega
  · rw [account_append]
    intro c hc
    rcases List.mem_cons.1 ((hperm _ _ _).mem_iff.1 hc) with rfl | hc
    · exact Nat.le_refl _
    · exact Nat.le_succ_of_le (hmade c hc)

theorem step (h : Sound capacity s) (hstep : Step m s t) : Sound capacity t := by
  cases hstep with
  | arrive => exact h.of_perm (.refl _) rfl rfl rfl rfl rfl
  | answer script => exact h.of_perm (.refl _) rfl rfl rfl rfl rfl
  | take hx hoffer => exact h.take hx hoffer
  | reserve hx hoffer => exact (h.reserve hx hoffer).2
  | wait hx hoffer => exact (h.wait hx hoffer).2
  | connect hrun => exact h.connect hrun
  | fail hrun => exact (h.fail hrun).2
  | send hrun => exact h.talk ((Pool.alike_send hrun).imp_right (congrArg _))
  | commit hrun => exact h.talk (Pool.alike_commit hrun)
  | rollback hrun => exact h.talk (Pool.alike_rollback hrun)
  | release => exact h.finish

theorem moves (h : Sound capacity s) (hmoves : Moves s t) : Sound capacity t := by
  induction hmoves with
  | refl => exact h
  | tail _ hstep ih => exact ih.step hstep.choose_spec

end Crowd.Sound

end Timetable.Server
