import LeveragedLp.Proofs.Exposure
import LeveragedLp.Proofs.Moves

/-!
# What the engine holds

The positions record what the engine holds for them: shares in custody, and free collateral in the
asset that was borrowed. For every asset, what the calls that stand moved into the engine's
account, less what they moved out of it, is just what the positions record (`run_custody`). This
takes two things of a run: the asset that is lent stays the same, since debts are repaid in the
asset that is lent at the time, and the engine's own account is nobody's owner, since funds sent
to oneself do not come in.
-/

set_option autoImplicit false

namespace LeveragedLp

open Engine

/-! ## What a journal brings in -/

/-- The units of a coin, if it is a coin of the asset. -/
def Coin.unitsOf (c : Coin) (d : Denom) : Int := if c.denom = d then c.amount.units else 0

/-- What the engine gets when a coin comes into an account. -/
def Coin.into (c : Coin) (account : Address) (d : Denom) : Int :=
  if account = .engine then c.unitsOf d else 0

namespace Coin

variable (denom d : Denom) {a b c : Amount}

/-- Coins of one asset add up. -/
theorem unitsOf_add (h : c.units = a.units + b.units) :
    (Coin.mk denom c).unitsOf d = (Coin.mk denom a).unitsOf d + (Coin.mk denom b).unitsOf d := by
  unfold unitsOf
  by_cases hd : denom = d
  · simp [hd, h]
  · simp [hd]

theorem unitsOf_of_zero (h : c.units = 0) : (Coin.mk denom c).unitsOf d = 0 := by
  unfold unitsOf
  by_cases hd : denom = d
  · simp [hd, h]
  · simp [hd]

@[simp] theorem into_engine (x : Coin) (d : Denom) : x.into .engine d = x.unitsOf d := if_pos rfl

theorem into_of_ne {x : Coin} {account : Address} (h : account ≠ .engine) (d : Denom) :
    x.into account d = 0 := if_neg h

end Coin

/-- What a transfer brings the engine of an asset, less what it takes, where `lending` is lent. -/
def Transfer.inflow (lending d : Denom) : Transfer → Int
  | sent source target coin => coin.into target d - coin.into source d
  | swapped account coin target out => (Coin.mk target out).into account d - coin.into account d
  | borrowed account amount => (Coin.mk lending amount).into account d
  | repaid account amount => -(Coin.mk lending amount).into account d
  | paidInterest account amount => -(Coin.mk lending amount).into account d
  | wroteOff _ => 0
  | absorbed _ _ => 0

/-- What the calls of a journal bring the engine of an asset, less what they take. -/
def Journal.inflow (d : Denom) (j : Journal) : Int :=
  (j.map fun x => x.moved.inflow x.lending d).sum

namespace Journal

theorem inflow_append (d : Denom) (i j : Journal) :
    inflow d (i ++ j) = inflow d i + inflow d j := by
  unfold inflow
  rw [List.map_append, List.sum_append]

/-- Where one asset was lent all the time, the transfers alone tell the inflow. -/
theorem inflow_of_wrote {σ : Type} {s t : σ × Journal} {moves : List Transfer} {lending : Denom}
    (h : Wrote s t moves) (hlending : ∀ x ∈ t.2, x.lending = lending) (d : Denom) :
    inflow d t.2 = inflow d s.2 + (moves.map (Transfer.inflow lending d)).sum := by
  obtain ⟨new, hnew, rfl⟩ := h
  have hsame : ∀ x ∈ new, x.moved.inflow x.lending d = x.moved.inflow lending d := by
    intro x hx
    rw [hlending x (hnew ▸ List.mem_append_right _ hx)]
  rw [hnew, inflow_append, List.map_map]
  exact congrArg (inflow d s.2 + ·) (congrArg List.sum (List.map_congr_left hsame))

end Journal

/-- What the engine holds of an asset for one position. -/
def Position.held (p : Position) (d : Denom) : Int :=
  p.custody.unitsOf d + (Coin.mk p.borrowAsset p.freeCollateral).unitsOf d

/-- What the positions record of an asset. -/
def Engine.held (e : Engine) (d : Denom) : Int := e.book.positions.sum fun p => p.held d

/-! ## The assets and owners of the positions -/

/-- All positions owe in one asset, and none belongs to the engine itself. -/
structure Book.Owes (b : Book) (lending : Denom) : Prop where
  borrowAsset : ∀ p ∈ b.positions.toList, p.borrowAsset = lending
  owner : ∀ p ∈ b.positions.toList, p.owner ≠ .engine

/-- The owner that an operation names, if it takes funds from one. -/
def Operation.payer : Operation → Option Address
  | .openPosition request _ => some request.owner
  | .addCollateral key _ => some key.owner
  | _ => none

namespace Book.Owes

variable {b b' : Book} {lending : Denom} {k : PositionKey} {p q : Position}

theorem congr (hb : b.Owes lending) (hpositions : b'.positions = b.positions) :
    b'.Owes lending := by
  refine ⟨?_, ?_⟩
  · rw [hpositions]
    exact hb.borrowAsset
  · rw [hpositions]
    exact hb.owner

theorem put (hb : b.Owes lending) (hasset : p.borrowAsset = lending) (howner : p.owner ≠ .engine) :
    (b.put p).Owes lending := by
  refine ⟨fun x hx => ?_, fun x hx => ?_⟩
  · rcases Registry.mem_toList_insert.1 hx with rfl | ⟨hold, -⟩
    · exact hasset
    · exact hb.borrowAsset x hold
  · rcases Registry.mem_toList_insert.1 hx with rfl | ⟨hold, -⟩
    · exact howner
    · exact hb.owner x hold

theorem put_continuing (hb : b.Owes lending) (hfound : b.position k = .ok p)
    (hq : p.Continues q) : (b.put q).Owes lending := by
  have hp := Registry.mem_toList_of_get? (Book.position_eq_ok.1 hfound)
  refine hb.put (hq.borrowAsset.trans (hb.borrowAsset p hp)) ?_
  have howner : q.owner = p.owner := congrArg PositionKey.owner hq.key
  rw [howner]
  exact hb.owner p hp

theorem remove (hb : b.Owes lending) (k : PositionKey) : (b.remove k).Owes lending :=
  ⟨fun x hx => hb.borrowAsset x (Registry.mem_toList_erase.1 hx).1,
    fun x hx => hb.owner x (Registry.mem_toList_erase.1 hx).1⟩

end Book.Owes

/-! ## What comes in is recorded -/

section

variable {σ κ : Type} {h : Host σ κ} {e : Engine} {block : Block} {lending : Denom}

/-- Whatever was posted, what comes in before the shares are bought is the worth of the collateral
and the loan; all of it goes out again for the shares. -/
theorem Opening.inflow_eq {s t : σ × Journal} {r : OpenRequest}
    (o : Opening h.journaled r block e s t) {principal : Amount}
    (hprincipal : principal.units = o.worth.units + o.liabilities.units)
    (howner : r.owner ≠ .engine) (d : Denom) :
    ((o.moves principal).map (Transfer.inflow r.borrowAsset d)).sum = o.position.held d := by
  have hcollected : ((Transfer.sent r.owner .engine r.collateral ::
      if r.collateral.denom = r.borrowAsset then []
      else [.swapped .engine r.collateral r.borrowAsset o.worth]).map
        (Transfer.inflow r.borrowAsset d)).sum = (Coin.mk r.borrowAsset o.worth).unitsOf d := by
    by_cases hsame : r.collateral.denom = r.borrowAsset
    · have hcoin : r.collateral = ⟨r.borrowAsset, o.worth⟩ := by
        rw [o.worth_eq hsame, ← hsame]
      rw [if_pos hsame]
      simp [Transfer.inflow, Coin.into_of_ne howner, ← hcoin]
    · rw [if_neg hsame]
      simp [Transfer.inflow, Coin.into_of_ne howner]
  have hborrowed : ((unlessZero o.liabilities [.borrowed .engine o.liabilities]).map
      (Transfer.inflow r.borrowAsset d)).sum = (Coin.mk r.borrowAsset o.liabilities).unitsOf d := by
    rw [sum_unlessZero]
    · simp [Transfer.inflow]
    · intro h0
      simp [Transfer.inflow, Coin.unitsOf_of_zero _ _ h0]
  -- worth and loan are the principal, which the shares cost; nothing is held free yet
  have hspent := Coin.unitsOf_add r.borrowAsset d hprincipal
  have hheld : o.position.held d = (Coin.mk r.shares o.custody).unitsOf d + 0 :=
    congrArg _ (Coin.unitsOf_of_zero _ _ rfl)
  unfold Opening.moves
  rw [List.map_append, List.map_append, List.sum_append, List.sum_append, hcollected, hborrowed,
    hheld]
  simp only [List.map_cons, List.map_nil, List.sum_cons, List.sum_nil, Transfer.inflow,
    Coin.into_engine]
  omega

theorem TopUp.inflow_eq {s t : σ} {k : PositionKey} {coin : Coin} (o : TopUp h k coin e s t)
    (howner : k.owner ≠ .engine) (lending d : Denom) :
    (o.moves.map (Transfer.inflow lending d)).sum + o.before.held d = o.position.held d := by
  obtain ⟨-, hadded⟩ := topUp_eq_ok o.topUp_eq
  have hcoin : coin = ⟨o.before.borrowAsset, coin.amount⟩ := by
    rw [← (checkTopUp_eq_ok o.check_eq).1]
  have hsent : (o.moves.map (Transfer.inflow lending d)).sum = coin.unitsOf d := by
    simp [TopUp.moves, Transfer.inflow, Coin.into_of_ne howner]
  -- a top-up is in the borrowed asset, where the free collateral is
  have hfree := Coin.unitsOf_add o.before.borrowAsset d hadded
  rw [← hcoin] at hfree
  have hafter : o.position.freeCollateral = o.raised.freeCollateral := rfl
  unfold Position.held
  rw [hsent, o.continues.custody, o.continues.borrowAsset, hafter, hfree]
  omega

theorem Charge.inflow_eq {s t : σ} {k : PositionKey} (o : Charge h k block e s t) (d : Denom) :
    (o.moves.map (Transfer.inflow o.before.borrowAsset d)).sum + o.before.held d =
      o.position.held d := by
  have hcharged := planEpoch_eq_ok o.plan_eq
  have hpaid : (o.moves.map (Transfer.inflow o.before.borrowAsset d)).sum =
      -(Coin.mk o.before.borrowAsset o.accrual.paid).unitsOf d := by
    unfold Charge.moves
    rw [sum_unlessZero]
    · simp [Transfer.inflow]
    · intro h0
      simp [Transfer.inflow, Coin.unitsOf_of_zero _ _ h0]
  have hfree := Coin.unitsOf_add o.before.borrowAsset d hcharged.free
  unfold Position.held
  rw [hpaid, hcharged.custody, hcharged.borrowAsset]
  omega

/-- What a settlement takes in for the shares it gives away goes out with the free collateral, to
the lending facility and the owner. -/
theorem Distribution.inflow_eq {s t : σ × Journal} {p : Position} {policy : InterestPolicy}
    (dist : Distribution h.journaled p policy s t) (howner : p.owner ≠ .engine) (d : Denom) :
    (dist.moves.map (Transfer.inflow p.borrowAsset d)).sum + p.held d = 0 := by
  have hfunds := Amount.add_eq_ok.1 dist.funds_eq
  have hpayout := Amount.sub_eq_ok.1 dist.payout_eq
  obtain ⟨-, hproceeds⟩ := redeem_wrote dist.redeem_eq
  have hredeemed : ((unlessZero p.custody.amount
      [.swapped .engine p.custody p.borrowAsset dist.proceeds]).map
        (Transfer.inflow p.borrowAsset d)).sum =
      (Coin.mk p.borrowAsset dist.proceeds).unitsOf d - p.custody.unitsOf d := by
    unfold unlessZero
    by_cases hzero : p.custody.amount.isZero
    · have hnone : p.custody.unitsOf d = 0 := Coin.unitsOf_of_zero _ _ (Amount.isZero_iff.1 hzero)
      rw [if_pos hzero, hproceeds hzero, hnone, Coin.unitsOf_of_zero _ _ rfl]
      rfl
    · rw [if_neg hzero]
      simp [Transfer.inflow]
  have hrepaid : ((unlessZero (dist.debt.least dist.funds)
      [.repaid .engine (dist.debt.least dist.funds)]).map (Transfer.inflow p.borrowAsset d)).sum =
      -(Coin.mk p.borrowAsset (dist.debt.least dist.funds)).unitsOf d := by
    rw [sum_unlessZero]
    · simp [Transfer.inflow]
    · intro h0
      simp [Transfer.inflow, Coin.unitsOf_of_zero _ _ h0]
  have hforgiven : ((unlessZero dist.shortfall
      [.wroteOff dist.shortfall, .absorbed p.pool (p.loss dist.shortfall)]).map
        (Transfer.inflow p.borrowAsset d)).sum = 0 := by
    rw [sum_unlessZero _ fun _ => rfl]
    rfl
  have hpaid : ((unlessZero dist.payout
      [.sent .engine p.owner ⟨p.borrowAsset, dist.payout⟩]).map
        (Transfer.inflow p.borrowAsset d)).sum =
      -(Coin.mk p.borrowAsset dist.payout).unitsOf d := by
    rw [sum_unlessZero]
    · simp [Transfer.inflow, Coin.into_of_ne howner]
    · intro h0
      simp [Transfer.inflow, Coin.into_of_ne howner, Coin.unitsOf_of_zero _ _ h0]
  -- proceeds and free collateral are the funds, and the funds are what is repaid and paid out
  have hin := Coin.unitsOf_add p.borrowAsset d hfunds
  have hout := Coin.unitsOf_add p.borrowAsset d hpayout
  unfold Distribution.moves Position.held
  simp only [List.map_append, List.sum_append]
  rw [hredeemed, hrepaid, hforgiven, hpaid]
  omega

end

/-! ## Turns, operations and runs -/

/-- From one engine to another transfers were made after which all positions still owe in the
asset that is lent, and for every asset they brought in what the positions record more. -/
def Covered {σ : Type} (lending : Denom) (e : Engine) (s : σ × Journal) (e' : Engine)
    (t : σ × Journal) : Prop :=
  ∃ moves, Wrote s t moves ∧ e'.book.Owes lending ∧
    ∀ d, (moves.map (Transfer.inflow lending d)).sum + e.held d = e'.held d

namespace Covered

variable {σ : Type} {lending : Denom} {e e₁ e₂ : Engine} {s s₁ s₂ : σ × Journal}

/-- Nothing was moved, and no position was touched. -/
theorem same (howes : e.book.Owes lending) (hpositions : e₁.book.positions = e.book.positions)
    (hwrote : Wrote s s₁ []) : Covered lending e s e₁ s₁ := by
  refine ⟨[], hwrote, howes.congr hpositions, fun d => ?_⟩
  unfold held
  rw [hpositions]
  exact zero_add _

theorem trans (x : Covered lending e s e₁ s₁) (y : Covered lending e₁ s₁ e₂ s₂) :
    Covered lending e s e₂ s₂ := by
  obtain ⟨moves, hwrote, -, hheld⟩ := x
  obtain ⟨moves', hwrote', howes', hheld'⟩ := y
  refine ⟨moves ++ moves', hwrote.trans hwrote', howes', fun d => ?_⟩
  have hfirst := hheld d
  have hsecond := hheld' d
  rw [List.map_append, List.sum_append]
  omega

theorem owes (x : Covered lending e s e₁ s₁) : e₁.book.Owes lending := by
  obtain ⟨moves, -, howes, -⟩ := x
  exact howes

end Covered

section

variable {σ κ : Type} {h : Host σ κ} {e : Engine} {s t : σ × Journal} {block : Block} {n : Nat}
variable {lending : Denom}

theorem Opening.covered {r : OpenRequest} (o : Opening h.journaled r block e s t)
    (he : e.book.Sound n) (howes : e.book.Owes lending) (howner : r.owner ≠ .engine)
    (hlending : ∀ x ∈ t.2, x.lending = lending) : Covered lending e s o.after t := by
  obtain ⟨principal, hprincipal, hwrote⟩ := o.wrote
  -- the entry of the collateral tells that what was borrowed is what is lent all the time
  obtain ⟨x, hx, hfirst⟩ := o.lending_mem
  have hasset : r.borrowAsset = lending := hfirst.symm.trans (hlending x hx)
  have hput : (e.book.put o.position).Owes lending := howes.put hasset howner
  refine ⟨o.moves principal, hwrote, hput.congr rfl, fun d => ?_⟩
  have hsum : o.after.held d = o.position.held d + e.held d :=
    Registry.sum_insert_new _ (he.get?_next rfl)
  rw [hsum, ← o.inflow_eq hprincipal howner d, hasset]

theorem TopUp.covered {k : PositionKey} {coin : Coin} (o : TopUp h.journaled k coin e s t)
    (howes : e.book.Owes lending) (howner : k.owner ≠ .engine) :
    Covered lending e s o.after t := by
  refine ⟨o.moves, o.wrote, howes.put_continuing o.found_eq o.continues, fun d => ?_⟩
  have hsum : o.before.held d + o.after.held d = o.position.held d + e.held d :=
    Registry.sum_insert_old (fun p => p.held d) (o.continues.get?_key o.found_eq)
  have hinflow := o.inflow_eq howner lending d
  omega

theorem Charge.covered {k : PositionKey} (o : Charge h.journaled k block e s t)
    (howes : e.book.Owes lending) : Covered lending e s o.after t := by
  have hcharged := (planEpoch_eq_ok o.plan_eq).toContinues
  have hbefore := Registry.mem_toList_of_get? (Book.position_eq_ok.1 o.found_eq)
  refine ⟨o.moves, o.wrote, howes.put_continuing o.found_eq hcharged, fun d => ?_⟩
  have hsum : o.before.held d + o.after.held d = o.position.held d + e.held d :=
    Registry.sum_insert_old (fun p => p.held d) (hcharged.get?_key o.found_eq)
  have hinflow := o.inflow_eq d
  rw [howes.borrowAsset _ hbefore] at hinflow
  omega

/-- The interest of a settlement is not paid from free collateral, so what is held for the
position is what it was. -/
theorem Closing.held_eq {p : Position} {reason : CloseReason}
    (o : Closing h.journaled p reason block e s t) (d : Denom) :
    o.position.held d = p.held d := by
  obtain ⟨hcharged, hpaid⟩ := chargeUp_eq_ok o.charge_eq
  have hfree : o.charged.freeCollateral = p.freeCollateral := by
    have hsplit := hcharged.free
    rw [hpaid] at hsplit
    exact Amount.ext hsplit.symm
  show o.charged.held d = p.held d
  unfold Position.held
  rw [hcharged.custody, hcharged.borrowAsset, hfree]

theorem Closing.covered {k : PositionKey} {p : Position} {reason : CloseReason}
    (o : Closing h.journaled p reason block e s t) (hfound : e.book.position k = .ok p)
    (howes : e.book.Owes lending) : Covered lending e s o.after t := by
  have hget := Book.position_eq_ok.1 hfound
  have hp := Registry.mem_toList_of_get? hget
  have hcharged := (chargeUp_eq_ok o.charge_eq).1
  have hkey : o.position.key = k := hcharged.key.trans (Registry.key_of_get? hget)
  have howner : o.position.owner ≠ .engine := by
    have hsame : o.position.owner = p.owner := congrArg PositionKey.owner hcharged.key
    rw [hsame]
    exact howes.owner p hp
  have hasset : o.position.borrowAsset = lending :=
    hcharged.borrowAsset.trans (howes.borrowAsset p hp)
  have hremoved : (e.book.remove o.position.key).Owes lending := howes.remove _
  refine ⟨o.paid.moves, o.paid.wrote, hremoved.congr rfl, fun d => ?_⟩
  have hsum : e.held d = p.held d + o.after.held d := by
    unfold Closing.after
    rw [hkey]
    exact Registry.sum_of_get? (fun p => p.held d) hget
  have hinflow := o.paid.inflow_eq howner d
  change _ + o.position.held d = 0 at hinflow
  rw [o.held_eq] at hinflow
  change (o.paid.moves.map (Transfer.inflow o.position.borrowAsset d)).sum + _ = 0 at hinflow
  rw [hasset] at hinflow
  omega

end

section

variable {σ κ : Type} {h : Host σ κ} {op : Operation} {e e' : Engine} {s t : σ × Journal}
variable {n m d : Nat} {lending : Denom}

/-- Every turn is covered, where the asset that is lent does not change and the engine does not
pay itself. -/
theorem Turn.covered (x : Turn h.journaled op e s m d e' t) (he : e.book.Sound n)
    (howes : e.book.Owes lending) (hpayer : op.payer ≠ some .engine)
    (hlending : ∀ x ∈ t.2, x.lending = lending) : Covered lending e s e' t := by
  cases x with
  | rest same rests => exact .same howes same.positions rests.wrote
  | track pool leverageMax enabled untracked => exact .same howes rfl (.nothing rfl)
  | revise tracked revises => exact .same howes rfl (.nothing rfl)
  | openPosition asked o =>
      subst asked
      exact o.covered he howes (fun howner => hpayer (congrArg some howner)) hlending
  | topUp asked o =>
      subst asked
      exact o.covered howes fun howner => hpayer (congrArg some howner)
  | charge o => exact o.covered howes
  | close found o => exact o.covered found howes

theorem Turns.covered (x : Turns h.journaled op e s m d e' t) (he : e.book.Sound n)
    (hn : n + m < twoPow 64 - 1) (howes : e.book.Owes lending)
    (hpayer : op.payer ≠ some .engine) (hlending : ∀ x ∈ t.2, x.lending = lending) :
    Covered lending e s e' t := by
  induction x with
  | none => exact .same howes rfl (.nothing rfl)
  | more before last ih =>
      rw [← Nat.add_assoc] at hn
      have hbefore := Nat.lt_of_le_of_lt (Nat.le_add_right _ _) hn
      -- the entries of the turns before are among those of all turns
      have hentries := last.journal_prefix.subset
      have hcovered := ih hbefore fun x hx => hlending x (hentries hx)
      have hsound := before.sound he hbefore
      exact hcovered.trans (last.covered hsound hcovered.owes hpayer hlending)

end

namespace Engine

/-- The journal of a request covers what the positions record more after it. -/
theorem next_covered {e : Engine} {n : Nat} {lending : Denom} (he : e.book.Sound n)
    (howes : e.book.Owes lending) (q : Request)
    (hn : n + countOk Answer.openings (e.respond q) < twoPow 64 - 1)
    (hpayer : q.op.payer ≠ some .engine) (hlending : ∀ x ∈ e.committed q, x.lending = lending) :
    (e.next q).book.Owes lending ∧
      ∀ d, (e.committed q).inflow d + e.held d = (e.next q).held d := by
  obtain ⟨t, hturns⟩ := turns_of_request e q
  obtain ⟨moves, hwrote, howes', hheld⟩ := hturns.covered he hn howes hpayer hlending
  refine ⟨howes', fun d => ?_⟩
  have hinflow := Journal.inflow_of_wrote hwrote hlending d
  -- the journal of a request begins empty
  change (e.committed q).inflow d = 0 + _ at hinflow
  rw [hinflow, zero_add]
  exact hheld d

/-- The journal of a run covers what the positions record more after it, from any sound book. -/
theorem run_covered {e : Engine} {n : Nat} {lending : Denom} (he : e.book.Sound n)
    (howes : e.book.Owes lending) (qs : List Request) (hn : n + e.openings qs < twoPow 64 - 1)
    (hpayer : ∀ q ∈ qs, q.op.payer ≠ some .engine)
    (hlending : ∀ x ∈ e.journal qs, x.lending = lending) (d : Denom) :
    (e.journal qs).inflow d + e.held d = (e.run qs).held d := by
  induction qs generalizing e n with
  | nil => exact zero_add _
  | cons q qs ih =>
      obtain ⟨hfirst, hlast⟩ := openings_cons_lt hn
      obtain ⟨howes', hstep⟩ := next_covered he howes q hfirst (hpayer q List.mem_cons_self)
        fun x hx => hlending x (List.mem_append_left _ hx)
      have hrest := ih (next_sound he q hfirst) howes' hlast
        (fun q' hq' => hpayer q' (List.mem_cons_of_mem q hq'))
        (fun x hx => hlending x (List.mem_append_right _ hx))
      calc (e.journal (q :: qs)).inflow d + e.held d
          = ((e.next q).journal qs).inflow d + ((e.committed q).inflow d + e.held d) := by
              rw [journal, Journal.inflow_append]
              omega
        _ = ((e.next q).journal qs).inflow d + (e.next q).held d := by rw [hstep d]
        _ = (e.run (q :: qs)).held d := hrest

/-- **Custody.** In a run from a new engine in which the asset that is lent stays the same and
the engine's account is not named as an owner, the calls that stand moved into the engine's
account, of every asset, just what the open positions record as custody and free collateral; with
any hosts, as long as fewer than `2 ^ 64 - 1` positions were opened. -/
theorem run_custody {params : Params} {e : Engine} (hnew : create params = .ok e)
    (qs : List Request) (hfew : e.openings qs < twoPow 64 - 1)
    (hpayer : ∀ q ∈ qs, q.op.payer ≠ some .engine) (lending : Denom)
    (hlending : ∀ x ∈ e.journal qs, x.lending = lending) (d : Denom) :
    (e.journal qs).inflow d = (e.run qs).held d := by
  have hempty : e.book.Sound 0 ∧ e.book.Owes lending ∧ e.held d = 0 := by
    rw [create_eq_ok hnew]
    refine ⟨.empty, ⟨?_, ?_⟩, rfl⟩
    · exact fun p hp => (List.not_mem_nil hp).elim
    · exact fun p hp => (List.not_mem_nil hp).elim
  obtain ⟨hsound, howes, hnothing⟩ := hempty
  rw [← Nat.zero_add (e.openings qs)] at hfew
  have hcovered := run_covered hsound howes qs hfew hpayer hlending d
  rw [hnothing, add_zero] at hcovered
  exact hcovered

/-- Bob's shares are what the engine is left with. -/
theorem lifetime_custody :
    (∀ q ∈ Sample.lifetime, q.op.payer ≠ some .engine) ∧
      (∀ x ∈ Sample.engine.journal Sample.lifetime, x.lending = .usdc) ∧
      (Sample.engine.run Sample.lifetime).held (.poolShare 1) = 1953 ∧
      ∀ d, (Sample.engine.journal Sample.lifetime).inflow d =
        (Sample.engine.run Sample.lifetime).held d := by
  have hpayer : ∀ q ∈ Sample.lifetime, q.op.payer ≠ some .engine := by decide +kernel
  have hrun : Sample.engine.openings Sample.lifetime = 2 ∧
      (∀ x ∈ Sample.engine.journal Sample.lifetime, x.lending = .usdc) ∧
      (Sample.engine.run Sample.lifetime).held (.poolShare 1) = 1953 := by decide +kernel
  obtain ⟨hopened, hlending, hheld⟩ := hrun
  refine ⟨hpayer, hlending, hheld, run_custody Sample.engine_new _ ?_ hpayer .usdc hlending⟩
  rw [hopened]
  decide

end Engine

end LeveragedLp
