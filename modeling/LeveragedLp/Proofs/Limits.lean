import LeveragedLp.Proofs.Admission
import LeveragedLp.Proofs.Thresholds
import LeveragedLp.Proofs.Waterfall

/-!
# The limits of an opening

An opening passes a long row of checks, each of them at its time: the request is held to its limits
before any funds move (`Engine.WithinLimits`), the loan to what the lending facility has once the
collateral is in (`Outlay.Follows`), the position to the safe health after all swaps
(`Position.RecordsOpening`), and the pool to its capacity with the new shares entered
(`Pool.TakesOn`). `Engine.opening_respects_limits` says that no opening gets past any of them, and
that its calls and its record are just what it asked for and got.
-/

set_option autoImplicit false

namespace LeveragedLp

open EngineM Engine

/-! ## Before any funds move -/

/-- What a leverage exceeds one by is found exactly. -/
theorem Decimal.value_excessOverOne {d : Decimal} (h : one ≤ d) :
    d.excessOverOne.value = d.value - 1 := by
  have hpos := tenPow_pos d.scale
  have hle : (tenPow d.scale : Int) ≤ d.signed := by
    have hcross : (1 : Int) * tenPow d.scale ≤ d.signed * (1 : Nat) := h
    rwa [Int.one_mul, Nat.cast_one, Int.mul_one] at hcross
  have hsigned : d.signed = d.mantissa := by
    rcases signed_cases d with hsigned | hneg
    · exact hsigned
    · omega
  have hexcess : d.excessOverOne.signed = d.signed - tenPow d.scale := by
    show ((d.mantissa - tenPow d.scale : Nat) : Int) = d.signed - tenPow d.scale
    omega
  show (d.excessOverOne.signed : ℚ) / tenPow d.scale = d.signed / tenPow d.scale - 1
  rw [hexcess, Int.cast_sub, Int.cast_natCast, sub_div, div_self (tenPow_cast_pos _).ne']

theorem Pool.accepting_eq_ok {p : Pool} (h : p.accepting = .ok ()) :
    p.enabled = true ∧ p.closed = false := by
  unfold accepting at h
  cases hclosed : p.closed with
  | true =>
      rw [if_pos hclosed] at h
      cases h
  | false =>
      cases henabled : p.enabled with
      | true => exact ⟨rfl, rfl⟩
      | false =>
          rw [hclosed, henabled] at h
          cases h

/-- The limits that a request is held to before any funds move. -/
structure Engine.WithinLimits {σ κ : Type} (e : Engine) (h : Host σ κ) (r : OpenRequest) (s : σ) :
    Prop where
  collateral : 0 < r.collateral.amount.units
  direction : r.direction = .long
  pool : ∃ pool, e.book.pool r.pool = .ok pool ∧ pool.enabled = true ∧ pool.closed = false ∧
    Decimal.one ≤ r.leverage ∧ r.leverage ≤ pool.leverageMax
  borrowAsset : r.borrowAsset = h.lendingDenom s
  takeProfit : ∀ price, r.takeProfit = some price →
    ∃ current, h.price s (.poolShare r.pool) = .ok current ∧ current < price

namespace Engine.Admits

variable {σ κ : Type} {h : Host σ κ} {e : Engine} {r : OpenRequest} {s : σ}

/-- A take profit is above the price of the shares that the oracle told. -/
theorem price_lt (x : e.Admits h r s) {price : Decimal} (hprice : r.takeProfit = some price) :
    ∃ current, h.price s (.poolShare r.pool) = .ok current ∧ current < price := by
  have hcheck := x.takeProfit
  unfold checkTakeProfit at hcheck
  rw [hprice] at hcheck
  obtain ⟨current, hcurrent, hcheck⟩ := except_bind_eq_ok.1 hcheck
  refine ⟨current, ?_, ?_⟩
  · unfold priceOf at hcurrent
    cases htold : h.price s r.shares with
    | error _ =>
        rw [htold] at hcurrent
        cases hcurrent
    | ok told =>
        rw [htold] at hcurrent
        cases hcurrent
        exact htold
  · by_cases hreached : price ≤ current
    · rw [if_pos hreached] at hcheck
      cases hcheck
    · exact Decimal.not_le.1 hreached

theorem withinLimits (x : e.Admits h r s) : e.WithinLimits h r s where
  collateral := by
    have hzero := x.collateral
    rw [Amount.isZero_iff] at hzero
    exact Nat.pos_of_ne_zero hzero
  direction := x.direction
  pool := by
    obtain ⟨pool, hpool, hadmits⟩ := x.pool
    obtain ⟨haccepting, hlow, hhigh⟩ := Pool.admits_eq_ok hadmits
    obtain ⟨henabled, hclosed⟩ := Pool.accepting_eq_ok haccepting
    exact ⟨pool, hpool, henabled, hclosed, hlow, hhigh⟩
  borrowAsset := x.borrowAsset
  takeProfit := fun _ hprice => x.price_lt hprice

end Engine.Admits

/-! ## The funds -/

/-- The amounts of an opening. -/
structure Outlay where
  /-- What the collateral is worth in the borrow asset. -/
  worth : Amount
  /-- What is borrowed on it. -/
  liabilities : Amount
  /-- Both together. -/
  principal : Amount
  /-- The shares that the principal was swapped for. -/
  custody : Amount
deriving DecidableEq

/-- The transfers of an opening with these amounts. -/
def OpenRequest.moves (r : OpenRequest) (x : Outlay) : List Transfer :=
  (.sent r.owner .engine r.collateral ::
    if r.collateral.denom = r.borrowAsset then []
    else [.swapped .engine r.collateral r.borrowAsset x.worth]) ++
  unlessZero x.liabilities [.borrowed .engine x.liabilities] ++
  [.swapped .engine ⟨r.borrowAsset, x.principal⟩ (.poolShare r.pool) x.custody]

/-- The amounts follow from the request, to a host in state `s`. -/
structure Outlay.Follows {σ κ : Type} (x : Outlay) (h : Host σ κ) (r : OpenRequest) (s : σ) :
    Prop where
  worth : r.collateral.denom = r.borrowAsset → x.worth = r.collateral.amount
  /-- The factor of the loan is the leverage less one, without a rounding. -/
  factor : r.leverage.excessOverOne.value = r.leverage.value - 1
  liabilities : x.worth.times r.leverage.excessOverOne = .ok x.liabilities
  /-- The loan is no more than the facility has once the collateral is in. -/
  available : ∃ collected, r.collect h s = (.ok x.worth, collected) ∧
    (¬ x.liabilities.isZero → x.liabilities ≤ h.available collected)
  principal : x.principal.units = x.worth.units + x.liabilities.units

/-- A loan is what the leverage asks for, and not more than there is. -/
theorem OpenRequest.lever_eq_ok {σ κ : Type} {h : Host σ κ} {r : OpenRequest}
    {worth liabilities : Amount} {s t : σ} (hlever : r.lever h worth s = (.ok liabilities, t)) :
    worth.times r.leverage.excessOverOne = .ok liabilities ∧
      (¬ liabilities.isZero → liabilities ≤ h.available s) := by
  obtain ⟨asked, u, hasked, hlever⟩ := HostM.bind_eq_ok.1 hlever
  obtain ⟨htimes, rfl⟩ := HostM.ofExcept_eq_ok.1 hasked
  by_cases hzero : asked.isZero
  · rw [if_pos hzero] at hlever
    obtain ⟨rfl, -⟩ := HostM.pure_eq_ok.1 hlever
    exact ⟨htimes, fun hsome => absurd hzero hsome⟩
  · rw [if_neg hzero] at hlever
    obtain ⟨_, v, hborrow, hlast⟩ := HostM.bind_eq_ok.1 hlever
    obtain ⟨rfl, -⟩ := HostM.pure_eq_ok.1 hlast
    obtain ⟨_, w, hread, -⟩ := HostM.bind_eq_ok.1 hborrow
    obtain ⟨henough, -⟩ := HostM.reading_eq_ok.1 hread
    refine ⟨htimes, fun _ => ?_⟩
    by_contra hmore
    have hlacking : h.available s < asked := Nat.lt_of_not_le hmore
    rw [if_pos hlacking] at henough
    cases henough

/-! ## The record and the exposure -/

/-- The record of a new position, on the host as the opening left it. -/
structure Position.RecordsOpening {σ κ : Type} (p : Position) (h : Host σ κ) (params : Params)
    (r : OpenRequest) (block : Block) (x : Outlay) (t : σ) : Prop where
  asked : p.owner = r.owner ∧ p.pool = r.pool ∧ p.direction = r.direction ∧
    p.leverage = r.leverage ∧ p.collateral = r.collateral ∧ p.takeProfit = r.takeProfit ∧
    p.borrowAsset = r.borrowAsset
  liabilities : p.liabilities = x.liabilities
  custody : p.custody = ⟨.poolShare r.pool, x.custody⟩
  free : p.freeCollateral = .zero
  interest : p.interestPaid = .zero ∧ p.interestPaidCustody = .zero ∧ p.interestUnpaid = .zero
  times : p.openedAt = block.time ∧ p.accruedUntil = block.time
  health : h.healthOrMax params t p = .ok p.health
  safe : params.safeThreshold ≤ p.health

/-- A pool before and after it took on the shares of an opening, with enough of it left free. -/
structure Pool.TakesOn {σ κ : Type} (before after : Pool) (h : Host σ κ) (params : Params)
    (shares : Amount) (t : σ) : Prop where
  same : after = { before with leveraged := after.leveraged, health := after.health }
  leveraged : after.leveraged.units = before.leveraged.units + shares.units
  health : ∃ total, h.sharesOf before.id t = .ok total ∧ after.freePart total = .ok after.health
  capacity : params.poolOpenThreshold ≤ after.health

namespace Opening

variable {σ κ : Type} {h : Host σ κ} {r : OpenRequest} {block : Block} {e : Engine} {s t : σ}
variable (o : Opening h r block e s t)

/-- The amounts, for a principal that is their sum. -/
def outlay (principal : Amount) : Outlay := ⟨o.worth, o.liabilities, principal, o.custody⟩

/-- There was room for one more position. -/
theorem size_le : o.after.book.positions.size ≤ e.params.maxOpenPositions.toNat := by
  have hroom := (checkRequest_eq_ok o.check_eq).room
  have hfiled := Registry.size_insert_le e.book.positions o.position
  exact Nat.le_trans hfiled hroom

end Opening

namespace Opening

variable {σ κ : Type} {h : Host σ κ} {r : OpenRequest} {block : Block} {e : Engine} {s t : σ}
variable {j k : Journal}

/-! Nothing that is checked or recorded depends on the journal. -/

theorem admits (o : Opening h.journaled r block e (s, j) (t, k)) :
    e.Admits h r (h.checkpoint s).2 :=
  checkRequest_eq_ok o.check_eq

theorem follows (o : Opening h.journaled r block e (s, j) (t, k)) {principal : Amount}
    (hprincipal : principal.units = o.worth.units + o.liabilities.units) :
    (o.outlay principal).Follows h r (h.checkpoint s).2 := by
  obtain ⟨hliabilities, havailable⟩ := OpenRequest.lever_eq_ok o.lever_eq
  have hcollect := collect_erases (h := h) r (h.journaled.checkpoint (s, j)).2
  rw [o.collect_eq] at hcollect
  obtain ⟨pool, -, hadmits⟩ := o.admits.pool
  exact ⟨o.worth_eq, Decimal.value_excessOverOne (Pool.admits_eq_ok hadmits).2.1, hliabilities,
    ⟨o.collected.1, hcollect, havailable⟩, hprincipal⟩

theorem recordsOpening (o : Opening h.journaled r block e (s, j) (t, k)) (principal : Amount) :
    o.position.RecordsOpening h e.params r block (o.outlay principal) t where
  asked := ⟨rfl, rfl, rfl, rfl, rfl, rfl, rfl⟩
  liabilities := rfl
  custody := rfl
  free := rfl
  interest := ⟨rfl, rfl, rfl⟩
  times := ⟨rfl, rfl⟩
  health := by
    rw [← Host.healthOrMax_journaled e.params (t, k)]
    exact o.healthOrMax_eq.1
  safe := Params.isSafe_iff.1 o.healthOrMax_eq.2

theorem takesOn (o : Opening h.journaled r block e (s, j) (t, k)) :
    o.tracked.TakesOn o.pool h e.params o.custody t where
  same := o.pool_eq
  leveraged := o.leveraged_eq
  health := by
    have hid : o.tracked.id = r.pool := Registry.key_of_get? (Book.pool_eq_ok.1 o.tracked_eq)
    obtain ⟨hrefreshed, hpart⟩ := Pool.refresh_eq_ok o.refresh_eq
    -- the free part does not depend on the health recorded before
    have hsame : o.pool.freePart o.total = o.registered.freePart o.total := by
      rw [hrefreshed]
      rfl
    rw [hid]
    exact ⟨o.total, o.shares_eq, hsame.trans hpart⟩
  capacity := by
    by_contra hlow
    exact o.threshold_le (Decimal.not_le.1 hlow)

end Opening

/-! ## No opening gets past the limits -/

/-- A success of an opening, from the engine `e` and the host in state `s`, with its amounts. -/
structure OpensWithinLimits {σ κ : Type} (h : Host σ κ) (r : OpenRequest) (block : Block)
    (e : Engine) (s : σ) (response : Response) (e' : Engine) (t : σ) (x : Outlay) : Prop where
  request : e.WithinLimits h r (h.checkpoint s).2
  amounts : x.Follows h r (h.checkpoint s).2
  /-- On the host with a journal the same happens, and these are the calls. -/
  calls : ∃ j, openPosition h.journaled r block (e, s, []) = (.ok response, e', t, j) ∧
    j.map Entry.moved = r.moves x
  record : ∃ p, e'.book.position ⟨r.owner, response.positionId⟩ = .ok p ∧
    p.RecordsOpening h e.params r block x t ∧ response.liabilities = p.liabilities ∧
      response.health = p.health
  exposure : ∃ before after, e.book.pool r.pool = .ok before ∧ e'.book.pool r.pool = .ok after ∧
    before.TakesOn after h e.params x.custody t
  room : e'.book.positions.size ≤ e.params.maxOpenPositions.toNat
  params : e'.params = e.params

namespace Engine

variable {σ κ : Type} {h : Host σ κ} {r : OpenRequest} {block : Block} {e e' : Engine} {s t : σ}
variable {response : Response}

/-- **Every opening respects every limit, and records what it did.** -/
theorem opening_respects_limits
    (hopen : openPosition h r block (e, s) = (.ok response, e', t)) :
    ∃ x, OpensWithinLimits h r block e s response e' t x := by
  -- the same opening on the journaled host, which has its calls
  obtain ⟨j, hjournaled⟩ := journaled_eq_ok (openPosition_erases r block) [] hopen
  obtain ⟨o, rfl, rfl⟩ := openPosition_eq_ok hjournaled
  obtain ⟨principal, hprincipal, new, hnew, hmoves⟩ := o.wrote
  have hcalls : j.map Entry.moved = r.moves (o.outlay principal) := by
    rw [← show new.map Entry.moved = r.moves (o.outlay principal) from hmoves]
    exact congrArg (List.map Entry.moved) hnew
  exact ⟨o.outlay principal, o.admits.withinLimits, o.follows hprincipal, ⟨j, hjournaled, hcalls⟩,
    ⟨o.position, o.position_after, o.recordsOpening principal, rfl, rfl⟩,
    ⟨o.tracked, o.pool, o.tracked_eq, o.pool_after, o.takesOn⟩, o.size_le, rfl⟩

/-- Alice levers 1000 five times, with a take profit at twice the price of the shares. -/
theorem opening_of_alice_is_within_limits :
    let world := Sample.world [.createPool 1 (.tenths 50) true]
    let r := { Sample.opening with takeProfit := some (.tenths 20) }
    let opened := openPosition Chain.host r ⟨1, 0⟩ world
    ∃ response x, opened.1 = .ok response ∧ x.liabilities.units = 4000 ∧
      OpensWithinLimits Chain.host r ⟨1, 0⟩ world.1 world.2 response opened.2.1 opened.2.2 x := by
  intro world r opened
  have hliabilities : (opened.1.map fun response => response.liabilities.units) = .ok 4000 := by
    decide +kernel
  obtain ⟨response, hopen, hliabilities⟩ := except_map_eq_ok.1 hliabilities
  have hrun := eq_of_fst hopen
  obtain ⟨x, hx⟩ := opening_respects_limits hrun
  obtain ⟨p, -, hrecords, htold, -⟩ := hx.record
  rw [htold, hrecords.liabilities] at hliabilities
  exact ⟨response, x, hopen, hliabilities, hx⟩

end Engine

end LeveragedLp
