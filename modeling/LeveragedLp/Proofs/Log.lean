import LeveragedLp.Proofs.Exposure
import LeveragedLp.Proofs.Reachable

/-!
# The log of a run

The events that were drained along a run, with those still to be drained behind them, make up its
log. What the log tells of one position is a life: it is opened, kept up, and perhaps closed
(`IsLife`). `Logged` says this of a list of events and the keys of the open positions, and that an
open position is one whose life has not ended. Events join a log in one of three ways only, each of
which keeps it: a new position is opened, an open one is kept up, or an open one is settled
(`Logged.opens`, `Logged.keepsUp`, `Logged.settles`).

A position is known in the log by its number alone. So the numbers of the open positions have to
differ, and no number may be given out twice, which holds as long as the numbers last.
-/

set_option autoImplicit false

namespace LeveragedLp

open Engine

/-! ## Kinds of events -/

namespace Event

def isOpened : Event → Bool
  | opened _ => true
  | _ => false

/-- What happens to a position while it is open. -/
def isUpkeep : Event → Bool
  | collateralAdded _ _ => true
  | interestSkipped _ _ _ => true
  | _ => false

def isLoss : Event → Bool
  | shortfallWrittenOff _ _ _ _ => true
  | _ => false

/-- An event is about the position with a number. -/
def isAbout (id : UInt64) (event : Event) : Bool := event.positionId == id

/-- The keys of the open positions after an event, as one reads them off the log. -/
def replay (keys : Finset PositionKey) : Event → Finset PositionKey
  | opened p => insert ⟨p.owner, p.id⟩ keys
  | closed p _ => keys.erase ⟨p.owner, p.id⟩
  | forceClosed p _ => keys.erase ⟨p.owner, p.id⟩
  | _ => keys

end Event

/-- How a life ends: with a close, perhaps right after a loss. -/
inductive Ending : List Event → Prop
  | plain {close : Event} (closes : close.isClose = true) : Ending [close]
  | withLoss {loss close : Event} (loses : loss.isLoss = true) (closes : close.isClose = true) :
      Ending [loss, close]

/-- All that is told of one position: that it was opened, how it was kept up, and the rest. -/
def IsLife (events rest : List Event) : Prop :=
  ∃ p upkeep, events = .opened p :: (upkeep ++ rest) ∧ ∀ x ∈ upkeep, x.isUpkeep = true

/-- Every loss is followed at once by the close of the same position. -/
def LossesClosed (log : List Event) : Prop :=
  ∀ before loss after, log = before ++ loss :: after → loss.isLoss = true →
    ∃ close rest, after = close :: rest ∧ close.isClose = true ∧
      close.positionId = loss.positionId

/-- A log of positions with numbers up to `n`, of which those under `keys` are open. -/
structure Logged (log : List Event) (keys : Finset PositionKey) (n : Nat) : Prop where
  living : ∀ k ∈ keys, IsLife (log.filter (Event.isAbout k.id)) []
  ended : ∀ x ∈ log, (∀ k ∈ keys, k.id ≠ x.positionId) →
    ∃ ending, Ending ending ∧ IsLife (log.filter (Event.isAbout x.positionId)) ending
  distinct : ∀ k ∈ keys, ∀ l ∈ keys, k.id = l.id → k = l
  numbers : ∀ x ∈ log, x.positionId.toNat ≤ n
  losses : LossesClosed log
  replayed : log.foldl Event.replay ∅ = keys

/-! ## How a log grows -/

theorem Event.not_isLoss_of_isClose {x : Event} (h : x.isClose = true) : x.isLoss = false := by
  cases x <;> first | rfl | cases h

theorem Event.not_isClose_of_isUpkeep {x : Event} (h : x.isUpkeep = true) : x.isClose = false := by
  cases x <;> first | rfl | cases h

theorem Event.not_isLoss_of_isUpkeep {x : Event} (h : x.isUpkeep = true) : x.isLoss = false := by
  cases x <;> first | rfl | cases h

namespace LossesClosed

variable {log told : List Event} {x : Event}

theorem nil : LossesClosed [] := by
  intro before loss after hsplit
  cases before with
  | nil => cases hsplit
  | cons _ _ => cases hsplit

theorem singleton (hx : x.isLoss = false) : LossesClosed [x] := by
  intro before loss after hsplit hloss
  cases before with
  | nil =>
      cases hsplit
      rw [hx] at hloss
      cases hloss
  | cons y before =>
      have hrest := (List.cons.inj hsplit).2
      cases before with
      | nil => cases hrest
      | cons _ _ => cases hrest

/-- A loss in either part is closed within the part. -/
theorem append (hlog : LossesClosed log) (htold : LossesClosed told) :
    LossesClosed (log ++ told) := by
  intro before loss after hsplit hloss
  rcases List.append_eq_append_iff.1 hsplit with ⟨middle, hbefore, htail⟩ | ⟨middle, hhead, htail⟩
  · exact htold middle loss after htail hloss
  · cases middle with
    | nil =>
        rw [List.nil_append] at htail
        exact htold [] loss after htail.symm hloss
    | cons y middle =>
        obtain ⟨rfl, hafter⟩ := List.cons.inj htail
        obtain ⟨close, rest, hclose, hcloses, hsame⟩ := hlog before loss middle hhead hloss
        refine ⟨close, rest ++ told, ?_, hcloses, hsame⟩
        rw [hafter, hclose]
        rfl

theorem of_ending (hending : Ending told) {id : UInt64} (hid : ∀ y ∈ told, y.positionId = id) :
    LossesClosed told := by
  cases hending with
  | plain closes => exact singleton (Event.not_isLoss_of_isClose closes)
  | @withLoss loss close loses closes =>
      intro before lost after hsplit hloss
      cases before with
      | nil =>
          cases hsplit
          refine ⟨close, [], rfl, closes, ?_⟩
          rw [hid close (List.mem_cons_of_mem _ List.mem_cons_self), hid loss List.mem_cons_self]
      | cons y before =>
          -- the close that is left is no loss
          have hrest := (List.cons.inj hsplit).2
          exact singleton (Event.not_isLoss_of_isClose closes) before lost after hrest hloss

end LossesClosed

theorem filter_isAbout_of_forall {told : List Event} {id : UInt64}
    (h : ∀ x ∈ told, x.positionId = id) : told.filter (Event.isAbout id) = told :=
  List.filter_eq_self.2 fun x hx => beq_iff_eq.2 (h x hx)

/-- What is told of one position is no news of another. -/
theorem filter_isAbout_append_of_ne (log : List Event) {told : List Event} {id other : UInt64}
    (h : ∀ x ∈ told, x.positionId = id) (hne : id ≠ other) :
    (log ++ told).filter (Event.isAbout other) = log.filter (Event.isAbout other) := by
  have hnone : told.filter (Event.isAbout other) = [] := by
    refine List.filter_eq_nil_iff.2 fun x hx habout => ?_
    exact hne ((h x hx).symm.trans (beq_iff_eq.1 habout))
  rw [List.filter_append, hnone, List.append_nil]

namespace Settlement

/-- A settlement tells of its own position. -/
theorem events_positionId (t : Settlement) : ∀ x ∈ t.events, x.positionId = t.position.id := by
  intro x hx
  unfold events Position.lossEvents at hx
  rcases List.mem_append.1 hx with hloss | hclose
  · split at hloss
    · cases hloss
    · rw [List.mem_singleton.1 hloss]
      rfl
  · rw [List.mem_singleton.1 hclose]
    unfold Settlement.event Event.ofClose
    cases t.reason <;> rfl

theorem events_ending (t : Settlement) : Ending t.events := by
  have hclose : t.event.isClose = true := by
    unfold Settlement.event Event.ofClose
    cases t.reason <;> rfl
  unfold events Position.lossEvents
  split
  · exact .plain hclose
  · exact .withLoss rfl hclose

/-- Who reads of a settlement takes its position out. -/
theorem events_replay (t : Settlement) (keys : Finset PositionKey) :
    t.events.foldl Event.replay keys = keys.erase t.position.key := by
  have hloss : (t.position.lossEvents t.shortfall).foldl Event.replay keys = keys := by
    unfold Position.lossEvents
    split
    · rfl
    · rfl
  have hclose : t.event.replay keys = keys.erase t.position.key := by
    unfold Settlement.event Event.ofClose
    cases t.reason <;> rfl
  rw [events, List.foldl_append, hloss]
  exact hclose

end Settlement

namespace Logged

variable {log told : List Event} {keys keys' : Finset PositionKey} {n n' : Nat} {id : UInt64}
variable {k : PositionKey}

theorem empty : Logged [] ∅ 0 where
  living := fun _ hk => (Finset.notMem_empty _ hk).elim
  ended := fun _ hx => (List.not_mem_nil hx).elim
  distinct := fun _ hk => (Finset.notMem_empty _ hk).elim
  numbers := fun _ hx => (List.not_mem_nil hx).elim
  losses := .nil
  replayed := rfl

/-- An open position was opened in the log. -/
theorem exists_opened (h : Logged log keys n) (hk : k ∈ keys) :
    ∃ x ∈ log, x.positionId = k.id ∧ x.isOpened = true := by
  obtain ⟨p, upkeep, hlife, -⟩ := h.living k hk
  have hmem : .opened p ∈ log.filter (Event.isAbout k.id) := by
    rw [hlife]
    exact List.mem_cons_self
  obtain ⟨hlog, habout⟩ := List.mem_filter.1 hmem
  exact ⟨_, hlog, beq_iff_eq.1 habout, rfl⟩

/-- So its number was given out. -/
theorem number_le (h : Logged log keys n) (hk : k ∈ keys) : k.id.toNat ≤ n := by
  obtain ⟨x, hx, hid, -⟩ := h.exists_opened hk
  rw [← hid]
  exact h.numbers x hx

/-- News of one position changes nothing for the others, so a log that they join is known once it
is known what became of this one. -/
theorem extend (h : Logged log keys n) (hn : n ≤ n') (hid : id.toNat ≤ n')
    (htold : ∀ y ∈ told, y.positionId = id) (hlosses : LossesClosed told)
    (hreplayed : told.foldl Event.replay keys = keys')
    (hothers : ∀ k, k.id ≠ id → (k ∈ keys' ↔ k ∈ keys))
    (hdistinct : ∀ k ∈ keys', ∀ l ∈ keys', k.id = id → l.id = id → k = l)
    (hliving : ∀ k ∈ keys', k.id = id → IsLife (log.filter (Event.isAbout id) ++ told) [])
    (hended : (∀ k ∈ keys', k.id ≠ id) →
      ∃ ending, Ending ending ∧ IsLife (log.filter (Event.isAbout id) ++ told) ending) :
    Logged (log ++ told) keys' n' := by
  have hself : (log ++ told).filter (Event.isAbout id) =
      log.filter (Event.isAbout id) ++ told := by
    rw [List.filter_append, filter_isAbout_of_forall htold]
  constructor
  case living =>
    intro k hk
    by_cases hsame : k.id = id
    · rw [hsame, hself]
      exact hliving k hk hsame
    · rw [filter_isAbout_append_of_ne log htold (Ne.symm hsame)]
      exact h.living k ((hothers k hsame).1 hk)
  case ended =>
    intro x hx hnone
    by_cases hsame : x.positionId = id
    · rw [hsame] at hnone ⊢
      rw [hself]
      exact hended hnone
    · have hold : x ∈ log := (List.mem_append.1 hx).resolve_right fun hx => hsame (htold x hx)
      rw [filter_isAbout_append_of_ne log htold (Ne.symm hsame)]
      refine h.ended x hold fun k hk heq => ?_
      have hother : k.id ≠ id := by rwa [heq]
      exact hnone k ((hothers k hother).2 hk) heq
  case distinct =>
    intro k hk l hl heq
    by_cases hsame : k.id = id
    · exact hdistinct k hk l hl hsame (heq ▸ hsame)
    · exact h.distinct k ((hothers k hsame).1 hk) l ((hothers l (heq ▸ hsame)).1 hl) heq
  case numbers =>
    intro x hx
    rcases List.mem_append.1 hx with hx | hx
    · exact (h.numbers x hx).trans hn
    · rw [htold x hx]
      exact hid
  case losses => exact h.losses.append hlosses
  case replayed => rw [List.foldl_append, h.replayed, hreplayed]

/-- A position is opened under a number not given out before. -/
theorem opens (h : Logged log keys n) {p : Position} (hnew : p.id.toNat = n + 1) :
    Logged (log ++ [.opened (p.summary .zero)]) (insert p.key keys) (n + 1) := by
  have hfresh : ∀ k ∈ keys, k.id ≠ p.id := by
    intro k hk heq
    have hle := h.number_le hk
    rw [heq, hnew] at hle
    omega
  have hfirst : log.filter (Event.isAbout p.id) = [] := by
    refine List.filter_eq_nil_iff.2 fun x hx habout => ?_
    have hle := h.numbers x hx
    have hsame : x.positionId = p.id := beq_iff_eq.1 habout
    rw [hsame, hnew] at hle
    omega
  have honly : ∀ k ∈ insert p.key keys, k.id = p.id → k = p.key := by
    intro k hk hid
    exact (Finset.mem_insert.1 hk).resolve_right fun hold => hfresh k hold hid
  refine h.extend (Nat.le_succ n) (Nat.le_of_eq hnew) ?_ (.singleton rfl) rfl ?_ ?_ ?_ ?_
  · intro y hy
    rw [List.mem_singleton.1 hy]
    rfl
  · intro k hne
    have hkey : k ≠ p.key := fun heq => hne (congrArg PositionKey.id heq)
    exact ⟨fun hk => Finset.mem_of_mem_insert_of_ne hk hkey, Finset.mem_insert_of_mem⟩
  · intro k hk l hl hkid hlid
    rw [honly k hk hkid, honly l hl hlid]
  · intro k hk hid
    rw [hfirst]
    exact ⟨_, [], rfl, fun x hx => (List.not_mem_nil hx).elim⟩
  · exact fun hnone => absurd rfl (hnone p.key (Finset.mem_insert_self _ _))

/-- An open position is kept up. -/
theorem keepsUp (h : Logged log keys n) {x : Event} (hx : x.isUpkeep = true) (hopen : k ∈ keys)
    (hid : x.positionId = k.id) : Logged (log ++ [x]) keys n := by
  have hreplayed : x.replay keys = keys := by
    cases x <;> first | rfl | cases hx
  refine h.extend (Nat.le_refl n) (h.number_le hopen) ?_
    (.singleton (Event.not_isLoss_of_isUpkeep hx)) hreplayed (fun _ _ => Iff.rfl) ?_ ?_ ?_
  · intro y hy
    rw [List.mem_singleton.1 hy]
    exact hid
  · intro l hl m hm hlid hmid
    exact h.distinct l hl m hm (hlid.trans hmid.symm)
  · intro l hl hlid
    obtain ⟨p, upkeep, hlife, hupkeep⟩ := h.living k hopen
    refine ⟨p, upkeep ++ [x], ?_, fun y hy => ?_⟩
    · rw [hlife, List.append_nil, List.append_nil, List.cons_append]
    · rcases List.mem_append.1 hy with hy | hy
      · exact hupkeep y hy
      · rw [List.mem_singleton.1 hy]
        exact hx
  · exact fun hnone => absurd rfl (hnone k hopen)

/-- An open position is settled. -/
theorem settles (h : Logged log keys n) (t : Settlement) (hopen : t.position.key ∈ keys) :
    Logged (log ++ t.events) (keys.erase t.position.key) n := by
  have hgone : ∀ k ∈ keys.erase t.position.key, k.id ≠ t.position.id := by
    intro k hk hid
    obtain ⟨hne, hold⟩ := Finset.mem_erase.1 hk
    exact hne (h.distinct k hold t.position.key hopen hid)
  refine h.extend (Nat.le_refl n) (h.number_le hopen) t.events_positionId
    (.of_ending t.events_ending t.events_positionId) (t.events_replay keys) ?_ ?_ ?_ ?_
  · intro k hne
    have hkey : k ≠ t.position.key := fun heq => hne (congrArg PositionKey.id heq)
    exact ⟨Finset.mem_of_mem_erase, fun hk => Finset.mem_erase.2 ⟨hkey, hk⟩⟩
  · exact fun k hk _ _ hid _ => absurd hid (hgone k hk)
  · exact fun k hk hid => absurd hid (hgone k hk)
  · intro _
    obtain ⟨p, upkeep, hlife, hupkeep⟩ := h.living t.position.key hopen
    refine ⟨t.events, t.events_ending, p, upkeep, ?_, hupkeep⟩
    rw [hlife, List.append_nil, List.cons_append]

end Logged

/-! ## What a log tells -/

theorem IsLife.filter_isClose {events rest : List Event} (h : IsLife events rest) :
    events.filter Event.isClose = rest.filter Event.isClose := by
  obtain ⟨p, upkeep, rfl, hupkeep⟩ := h
  have hnone : upkeep.filter Event.isClose = [] := by
    refine List.filter_eq_nil_iff.2 fun x hx hclose => ?_
    rw [Event.not_isClose_of_isUpkeep (hupkeep x hx)] at hclose
    cases hclose
  have hopened : Event.isClose (.opened p) = false := rfl
  rw [List.filter_cons_of_neg (by rw [hopened]; exact Bool.false_ne_true), List.filter_append,
    hnone, List.nil_append]

theorem Ending.filter_isClose {ending : List Event} (h : Ending ending) :
    ∃ close, ending.filter Event.isClose = [close] := by
  cases h with
  | @plain close closes => exact ⟨close, by simp [closes]⟩
  | @withLoss loss close loses closes =>
      have hloss : loss.isClose = false := by
        cases loss <;> first | rfl | cases loses
      exact ⟨close, by simp [hloss, closes]⟩

namespace Logged

variable {log : List Event} {keys : Finset PositionKey} {n : Nat} {k : PositionKey}

/-- A number that the log tells of is that of an open position, or its life has ended. -/
theorem open_or_ended (h : Logged log keys n) {x : Event} (hx : x ∈ log) :
    (∃ k ∈ keys, k.id = x.positionId) ∨
      ∃ ending, Ending ending ∧ IsLife (log.filter (Event.isAbout x.positionId)) ending := by
  by_cases hopen : ∃ k ∈ keys, k.id = x.positionId
  · exact .inl hopen
  · exact .inr (h.ended x hx fun k hk heq => hopen ⟨k, hk, heq⟩)

theorem lives (h : Logged log keys n) {x : Event} (hx : x ∈ log) :
    ∃ ending, (ending = [] ∨ Ending ending) ∧
      IsLife (log.filter (Event.isAbout x.positionId)) ending := by
  rcases h.open_or_ended hx with ⟨k, hk, hid⟩ | ⟨ending, hending, hlife⟩
  · exact ⟨[], .inl rfl, hid ▸ h.living k hk⟩
  · exact ⟨ending, .inr hending, hlife⟩

/-- The log tells of no close of an open position. -/
theorem no_close_of_open (h : Logged log keys n) (hk : k ∈ keys) {x : Event} (hx : x ∈ log)
    (hid : x.positionId = k.id) : x.isClose = false := by
  have habout : x ∈ log.filter (Event.isAbout k.id) := List.mem_filter.2 ⟨hx, beq_iff_eq.2 hid⟩
  have hnone := (h.living k hk).filter_isClose
  exact Bool.eq_false_iff.2 (List.filter_eq_nil_iff.1 hnone x habout)

/-- A position of which no close is told is open. -/
theorem open_of_no_close (h : Logged log keys n) {x : Event} (hx : x ∈ log)
    (hnone : ∀ y ∈ log, y.positionId = x.positionId → y.isClose = false) :
    ∃ k ∈ keys, k.id = x.positionId := by
  refine (h.open_or_ended hx).resolve_right ?_
  rintro ⟨ending, hending, hlife⟩
  obtain ⟨close, hclose⟩ := hending.filter_isClose
  rw [← hlife.filter_isClose] at hclose
  have hmem : close ∈ (log.filter (Event.isAbout x.positionId)).filter Event.isClose := by
    rw [hclose]
    exact List.mem_cons_self
  obtain ⟨habout, hcloses⟩ := List.mem_filter.1 hmem
  obtain ⟨hlog, habout⟩ := List.mem_filter.1 habout
  rw [hnone close hlog (beq_iff_eq.1 habout)] at hcloses
  cases hcloses

theorem closes_once (h : Logged log keys n) (id : UInt64) :
    ((log.filter (Event.isAbout id)).filter Event.isClose).length ≤ 1 := by
  by_cases htold : ∃ x ∈ log, x.positionId = id
  · obtain ⟨x, hx, rfl⟩ := htold
    obtain ⟨ending, hending, hlife⟩ := h.lives hx
    rw [hlife.filter_isClose]
    rcases hending with rfl | hending
    · exact Nat.zero_le 1
    · obtain ⟨close, hclose⟩ := hending.filter_isClose
      rw [hclose]
      exact Nat.le_refl 1
  · have hnone : log.filter (Event.isAbout id) = [] :=
      List.filter_eq_nil_iff.2 fun x hx habout => htold ⟨x, hx, beq_iff_eq.1 habout⟩
    rw [hnone]
    exact Nat.zero_le 1

end Logged

end LeveragedLp
