import LeveragedLp.Proofs.Consolidation
import LeveragedLp.Proofs.DebtFree
import LeveragedLp.Proofs.InterestOrder
import LeveragedLp.Proofs.Reasons

/-!
# Topping up

A top-up adds to what backs a position and leaves what it owes. So the value of the debt stays, and
the value of the holdings does not fall where more of the borrow asset is worth no less
(`Host.EstimatesGrow`): holdings are added up one by one, those of zero passed over, and each is
worth at least what it was, also where it was passed over before (`Host.addUp_le`). The health is
the ratio of the two values, rounded, which keeps the order (`Amount.ratio_mono`), or the largest
decimal before and after, where nothing is owed.
-/

set_option autoImplicit false

namespace LeveragedLp

open EngineM Engine

/-! ## Ratios in order -/

/-- Of two amounts the larger has no smaller ratio to a third, though it may be rounded at another
scale. -/
theorem Amount.ratio_mono {a a' b : Amount} {d d' : Decimal} (hle : a ≤ a')
    (h : a.ratio b = .ok d) (h' : a'.ratio b = .ok d') : d ≤ d' := by
  obtain ⟨hpos, c, hsign, hc, rfl⟩ := ratio_eq_ok h
  obtain ⟨-, c', hsign', hc', rfl⟩ := ratio_eq_ok h'
  have hcross : a.units * b.units ≤ a'.units * b.units := Nat.mul_le_mul_right _ (le_iff.1 hle)
  have hvalues : c ≤ c' :=
    (Decimal.le_iff_of_not_negative hsign hsign').2 (Decimal.Nearest.mono hpos hpos hc hc' hcross)
  exact Decimal.le_trans c.normalize_le (Decimal.le_trans hvalues c'.le_normalize)

/-! ## Holdings in order -/

namespace Host

variable {σ κ : Type} {h : Host σ κ} {s : σ} {base source target : Denom} {params : Params}
variable {total total' v v' : Amount} {coin coin' : Coin} {holdings holdings' : List Coin}

/-- More of an asset is estimated to swap into no less of another. -/
def EstimatesGrow (h : Host σ κ) (s : σ) (source target : Denom) : Prop :=
  ∀ route, h.route s source target = some route → ∀ a b x y : Amount, a ≤ b →
    h.estimateIn s ⟨source, a⟩ route = .ok x → h.estimateIn s ⟨source, b⟩ route = .ok y → x ≤ y

theorem EstimatesGrow.valueOf_le (hgrow : h.EstimatesGrow s source target) {a b x y : Amount}
    (hle : a ≤ b) (hx : h.valueOf s a source target = .ok x)
    (hy : h.valueOf s b source target = .ok y) : x ≤ y := by
  by_cases hsame : source = target
  · rw [valueOf, if_pos hsame] at hx hy
    cases hx
    cases hy
    exact hle
  · obtain ⟨route, hroute, hx⟩ := (valueOf_eq_ok hsame).1 hx
    obtain ⟨route', hroute', hy⟩ := (valueOf_eq_ok hsame).1 hy
    cases hroute.symm.trans hroute'
    exact hgrow route hroute a b x y hle hx hy

theorem custodyValue_eq_addUp (h : Host σ κ) (params : Params) (s : σ) (p : Position) :
    h.custodyValue params s p = h.addUp s params.baseCurrency .zero p.holdings := rfl

/-- Holdings that cannot be added up fail for a value or for the sum. -/
theorem addUp_eq_error {fault : Fault}
    (hsum : h.addUp s base total holdings = .error fault) : fault ≠ .degenerateHealth := by
  obtain ⟨before, coin, after, -, sum, -, hends⟩ := addUp_eq_error_iff.1 hsum
  cases hends with
  | unvalued _ hvalue =>
      obtain ⟨gap, rfl⟩ := valueOf_eq_error hvalue
      exact Fault.noConfusion
  | overflow _ _ _ => exact Fault.noConfusion

/-- A holding is no more than another, and is worth no more where both have a value. -/
structure Outweighed (h : Host σ κ) (s : σ) (base : Denom) (coin coin' : Coin) : Prop where
  amount : coin.amount ≤ coin'.amount
  value : ∀ x y, h.valueOf s coin.amount coin.denom base = .ok x →
    h.valueOf s coin'.amount coin'.denom base = .ok y → x ≤ y

theorem Outweighed.refl (h : Host σ κ) (s : σ) (base : Denom) (coin : Coin) :
    h.Outweighed s base coin coin where
  amount := Nat.le_refl _
  value x y hx hy := by
    cases hx.symm.trans hy
    exact Nat.le_refl _

/-- **Holdings that outweigh others one by one are worth no less in all.** One of them may be
passed over where the other is not, as it is none. -/
theorem addUp_le (hall : List.Forall₂ (h.Outweighed s base) holdings holdings')
    (htotal : total ≤ total') (hv : h.addUp s base total holdings = .ok v)
    (hv' : h.addUp s base total' holdings' = .ok v') : v ≤ v' := by
  induction hall generalizing total total' with
  | nil =>
      cases hv
      cases hv'
      exact htotal
  | @cons coin coin' holdings holdings' hcoin _ ih =>
      have hamount := Amount.le_iff.1 hcoin.amount
      by_cases hzero' : coin'.amount.isZero = true
      · have hzero : coin.amount.isZero = true := by
          rw [Amount.isZero_iff] at hzero' ⊢
          omega
        rw [addUp_cons_of_zero hzero] at hv
        rw [addUp_cons_of_zero hzero'] at hv'
        exact ih htotal hv hv'
      · rw [addUp_cons_of_not_zero hzero'] at hv'
        obtain ⟨value', hvalue', hv'⟩ := except_bind_eq_ok.1 hv'
        obtain ⟨sum', hsum', hv'⟩ := except_bind_eq_ok.1 hv'
        have hunits' := Amount.add_eq_ok.1 hsum'
        have hunits := Amount.le_iff.1 htotal
        by_cases hzero : coin.amount.isZero = true
        · -- only the larger holding counts, and it adds something or nothing
          rw [addUp_cons_of_zero hzero] at hv
          apply ih _ hv hv'
          rw [Amount.le_iff]
          omega
        · rw [addUp_cons_of_not_zero hzero] at hv
          obtain ⟨value, hvalue, hv⟩ := except_bind_eq_ok.1 hv
          obtain ⟨sum, hsum, hv⟩ := except_bind_eq_ok.1 hv
          have hsum := Amount.add_eq_ok.1 hsum
          have hvalues := Amount.le_iff.1 (hcoin.value value value' hvalue hvalue')
          apply ih _ hv hv'
          rw [Amount.le_iff]
          omega

/-! ## Health -/

/-- A debt without a value fails for the sum or for the assets. -/
theorem debtValue_eq_error {p : Position} {fault : Fault}
    (hdebt : h.debtValue params s p = .error fault) : fault ≠ .degenerateHealth := by
  rcases except_bind_eq_error.1 hdebt with hunits | ⟨debt, -, hvalue⟩
  · rintro rfl
    cases hpolicy : params.interestPolicy with
    | stacked =>
        rw [hpolicy] at hunits
        cases hunits
    | separate =>
        rw [hpolicy] at hunits
        cases orFault_eq_error hunits
  · obtain ⟨gap, rfl⟩ := valueOf_eq_error hvalue
    intro hfault
    cases hfault

theorem custodyRatio_eq_error {p : Position} {debt : Amount} {fault : Fault}
    (hfailed : (h.custodyValue params s p >>= fun custody => custody.ratio debt) = .error fault) :
    fault ≠ .degenerateHealth := by
  rcases except_bind_eq_error.1 hfailed with hcustody | ⟨custody, -, hratio⟩
  · rw [custodyValue_eq_addUp] at hcustody
    exact addUp_eq_error hcustody
  · obtain ⟨quantity, rfl⟩ := Amount.ratio_eq_error hratio
    intro hfault
    cases hfault

/-- The debt is valued first, and the holdings only where it is worth something. -/
theorem health_of_debtValue {p : Position} {debt : Amount}
    (hdebt : h.debtValue params s p = .ok debt) :
    h.health params s p = if debt.isZero then .error .degenerateHealth
      else h.custodyValue params s p >>= fun custody => custody.ratio debt := by
  unfold Host.health
  rw [hdebt]
  rfl

/-- A position is as healthy as can be where its debt is worth nothing, and otherwise its health is
the ratio of what its holdings and its debt are worth. -/
theorem healthOrMax_eq_ok {p : Position} {health : Decimal}
    (hhealth : h.healthOrMax params s p = .ok health) :
    ∃ debt, h.debtValue params s p = .ok debt ∧ (debt.isZero = true ∧ health = .largest ∨
      ¬ debt.isZero = true ∧ ∃ custody, h.custodyValue params s p = .ok custody ∧
        custody.ratio debt = .ok health) := by
  have hfails : ∀ fault, fault ≠ .degenerateHealth → ¬ h.health params s p = .error fault := by
    intro fault hfault hfailed
    rw [healthOrMax_of_health_error hfailed hfault] at hhealth
    cases hhealth
  cases hdebt : h.debtValue params s p with
  | error fault =>
      have hfailed : h.health params s p = .error fault := by
        unfold Host.health
        rw [hdebt]
        rfl
      exact absurd hfailed (hfails fault (debtValue_eq_error hdebt))
  | ok debt =>
      have hanswer := health_of_debtValue hdebt
      refine ⟨debt, rfl, ?_⟩
      by_cases hzero : debt.isZero = true
      · rw [if_pos hzero] at hanswer
        rw [healthOrMax, hanswer] at hhealth
        exact .inl ⟨hzero, (Except.ok.inj hhealth).symm⟩
      · rw [if_neg hzero] at hanswer
        cases hratio : h.custodyValue params s p >>= fun custody => custody.ratio debt with
        | error fault =>
            exact absurd (hanswer.trans hratio) (hfails fault (custodyRatio_eq_error hratio))
        | ok ratio =>
            rw [healthOrMax, hanswer.trans hratio] at hhealth
            cases hhealth
            exact .inr ⟨hzero, except_bind_eq_ok.1 hratio⟩

/-- A position that owes as much and holds no less is no less healthy. -/
theorem healthOrMax_le {p q : Position} {before after : Decimal}
    (hdebt : h.debtValue params s q = h.debtValue params s p)
    (hholdings : List.Forall₂ (h.Outweighed s params.baseCurrency) p.holdings q.holdings)
    (hbefore : h.healthOrMax params s p = .ok before)
    (hafter : h.healthOrMax params s q = .ok after) : before ≤ after := by
  obtain ⟨debt, howed, hp⟩ := healthOrMax_eq_ok hbefore
  obtain ⟨debt', howed', hq⟩ := healthOrMax_eq_ok hafter
  cases howed'.symm.trans (hdebt.trans howed)
  rcases hp with ⟨hzero, rfl⟩ | ⟨hzero, custody, hcustody, hratio⟩
  · rcases hq with ⟨-, rfl⟩ | ⟨hzero', -⟩
    · exact Int.le_refl _
    · exact absurd hzero hzero'
  · rcases hq with ⟨hzero', -⟩ | ⟨-, custody', hcustody', hratio'⟩
    · exact absurd hzero' hzero
    · rw [custodyValue_eq_addUp] at hcustody hcustody'
      have hworth : custody ≤ custody' := addUp_le hholdings (Nat.le_refl _) hcustody hcustody'
      exact Amount.ratio_mono hworth hratio hratio'

end Host

/-! ## Sending funds -/

/-- Sending funds is no swap: it changes neither the routes nor what is estimated along them. -/
structure Host.SendsQuietly {σ κ : Type} (h : Host σ κ) : Prop where
  route : ∀ source target coin s, h.route (h.send source target coin s).2 = h.route s
  estimateIn : ∀ source target coin s,
    h.estimateIn (h.send source target coin s).2 = h.estimateIn s

namespace Chain

/-- A call that leaves the quotes as they are, and the failures that calls are made to report. -/
def Quiet {α : Type} (x : Call α) : Prop :=
  ∀ c : Chain, (x c).2.quotes = c.quotes ∧ (x c).2.outages = c.outages

section

variable {α β : Type}

theorem quiet_pure (a : α) : Quiet (pure a) := fun _ => ⟨rfl, rfl⟩

theorem quiet_throw (fault : HostFault) : Quiet (throw fault : Call α) := fun _ => ⟨rfl, rfl⟩

theorem quiet_get : Quiet get := fun _ => ⟨rfl, rfl⟩

theorem quiet_bind {x : Call α} {f : α → Call β} (hx : Quiet x) (hf : ∀ a, Quiet (f a)) :
    Quiet (x >>= f) := by
  intro c
  have hfirst := hx c
  rcases hres : x c with ⟨fault | a, d⟩
  · have hrun : (x >>= f) c = (.error fault, d) := by
      simp only [bind, ExceptT.bind, ExceptT.mk, ExceptT.bindCont, StateT.bind, hres]
      rfl
    rw [hres] at hfirst
    rw [hrun]
    exact hfirst
  · have hrun : (x >>= f) c = f a d := by
      simp only [bind, ExceptT.bind, ExceptT.mk, ExceptT.bindCont, StateT.bind, hres]
    rw [hres] at hfirst
    rw [hrun]
    exact ⟨(hf a d).1.trans hfirst.1, (hf a d).2.trans hfirst.2⟩

theorem quiet_setBalance (account : Address) (denom : Denom) (amount : Amount) :
    Quiet (modify fun c => c.setBalance account denom amount) := fun _ => ⟨rfl, rfl⟩

theorem quiet_debit (account : Address) (coin : Coin) : Quiet (debit account coin) := by
  refine quiet_bind quiet_get fun c => ?_
  dsimp only
  split
  · exact quiet_setBalance _ _ _
  · exact quiet_throw _

theorem quiet_credit (account : Address) (coin : Coin) : Quiet (credit account coin) := by
  refine quiet_bind quiet_get fun c => ?_
  dsimp only
  split
  · exact quiet_setBalance _ _ _
  · exact quiet_throw _

theorem quiet_breakable {call : HostCall} {work : Call α} (hwork : Quiet work) :
    Quiet (breakable call work) := by
  refine quiet_bind quiet_get fun c => ?_
  split
  · exact quiet_throw _
  · refine quiet_bind hwork fun result => quiet_bind quiet_get fun d => ?_
    split
    · exact quiet_throw _
    · exact quiet_pure _

/-- Sending moves balances only. -/
theorem quiet_send (source target : Address) (coin : Coin) : Quiet (send source target coin) :=
  quiet_breakable (quiet_bind (quiet_debit _ _) fun _ => quiet_credit _ _)

end

theorem host_sendsQuietly : host.SendsQuietly where
  route source target coin c := by
    funext a b
    show ((send source target coin c).2.quotes.find? _).map _ = (c.quotes.find? _).map _
    rw [(quiet_send source target coin c).1]
  estimateIn source target coin c := by
    obtain ⟨hquotes, houtages⟩ := quiet_send source target coin c
    funext given route
    show estimateIn (send source target coin c).2 given route = estimateIn c given route
    simp only [estimateIn, unlessBroken, earlyFault?, quoted, quote?, hquotes, houtages]

theorem quoted_eq_ok {c : Chain} {source target : Denom} {amount out : Amount}
    (h : c.quoted source target amount = .ok out) :
    ∃ q, c.quote? source target = some q ∧
      out.units = amount.units * q.num.units / q.den.units := by
  unfold quoted at h
  cases hquote : c.quote? source target with
  | none =>
      rw [hquote] at h
      cases h
  | some q =>
      rw [hquote] at h
      dsimp only at h
      obtain ⟨scaled, hscaled, h⟩ := except_bind_eq_ok.1 h
      obtain ⟨found, hfound, h⟩ := except_bind_eq_ok.1 h
      obtain ⟨_, -, h⟩ := except_bind_eq_ok.1 h
      cases h
      have hproduct : amount.units * q.num.units = scaled := by
        unfold product at hscaled
        split at hscaled
        · exact Except.ok.inj hscaled
        · cases hscaled
      have hrounded : out.units = scaled / q.den.units := by
        unfold toAmount at hfound
        split at hfound
        · next a ha =>
          cases hfound
          exact Amount.ofNat?_eq_some_iff.1 ha
        · cases hfound
      exact ⟨q, rfl, by rw [hrounded, hproduct]⟩

/-- Quotes are rounded down, which keeps the order. -/
theorem host_estimatesGrow (c : Chain) (source target : Denom) :
    host.EstimatesGrow c source target := by
  intro route hroute a b x y hle hx hy
  have hestimates : ∀ amount out, host.estimateIn c ⟨source, amount⟩ route = .ok out →
      c.quoted source route.target amount = .ok out := by
    intro amount out hout
    change c.unlessBroken .estimateIn _ = _ at hout
    unfold unlessBroken at hout
    split at hout
    · cases hout
    · exact hout
  obtain ⟨q, hq, hunits⟩ := quoted_eq_ok (hestimates a x hx)
  obtain ⟨q', hq', hunits'⟩ := quoted_eq_ok (hestimates b y hy)
  cases hq.symm.trans hq'
  rw [Amount.le_iff, hunits, hunits']
  exact Nat.div_le_div_right (Nat.mul_le_mul_right _ (Amount.le_iff.1 hle))

end Chain

/-! ## The top-up -/

section

variable {σ κ : Type} {h : Host σ κ} {k : PositionKey} {coin : Coin} {e : Engine} {s t : σ}

namespace TopUp

variable (o : TopUp h k coin e s t)

theorem debtValue_eq (params : Params) (u : σ) :
    h.debtValue params u o.raised = h.debtValue params u o.before := by
  rw [(topUp_eq_ok o.topUp_eq).1]
  rfl

/-- The custody is the same, and the free collateral outweighs what it was. -/
theorem holdings_outweighed {base : Denom} (hgrow : h.EstimatesGrow s o.before.borrowAsset base) :
    List.Forall₂ (h.Outweighed s base) o.before.holdings o.raised.holdings := by
  obtain ⟨hraised, hfree⟩ := topUp_eq_ok o.topUp_eq
  have hle : o.before.freeCollateral ≤ o.raised.freeCollateral := by
    rw [Amount.le_iff]
    omega
  have hcollateral : h.Outweighed s base ⟨o.before.borrowAsset, o.before.freeCollateral⟩
      ⟨o.before.borrowAsset, o.raised.freeCollateral⟩ :=
    ⟨hle, fun x y hx hy => hgrow.valueOf_le hle hx hy⟩
  rw [hraised]
  exact .cons (.refl h s base _) (.cons hcollateral .nil)

end TopUp

end

namespace Engine

variable {σ κ : Type} {h : Host σ κ} {k : PositionKey} {coin : Coin} {e e' : Engine} {s t : σ}
variable {p : Position} {before after : Decimal}

/-- **A top-up does not make a position less healthy**, on a host where sending funds changes
neither routes nor estimates, and where more of the borrow asset is worth no less in the base
currency. -/
theorem top_up_never_worsens_health (hcheckpoint : h.CheckpointsQuietly) (hsend : h.SendsQuietly)
    (hfound : e.book.position k = .ok p)
    (hgrow : h.EstimatesGrow s p.borrowAsset e.params.baseCurrency)
    (hbefore : e.positionHealth h k s = .ok before)
    (hadd : addCollateral h k coin (e, s) = (.ok after, e', t)) : before ≤ after := by
  obtain ⟨o, rfl, rfl⟩ := addCollateral_eq_ok hadd
  cases hfound.symm.trans o.found_eq
  have hhealth : h.healthOrMax e.params s o.before = .ok before := by
    obtain ⟨p, hp, hhealth⟩ := except_bind_eq_ok.1 hbefore
    cases o.found_eq.symm.trans hp
    exact hhealth
  -- the health after is found on the host that the coin was sent on, with the estimates of before
  have hroute : h.route t = h.route s := by
    have hsent := hsend.route k.owner .engine coin (h.checkpoint s).2
    rw [o.send_eq] at hsent
    exact hsent.trans (hcheckpoint.route s)
  have hestimate : h.estimateIn t = h.estimateIn s := by
    have hsent := hsend.estimateIn k.owner .engine coin (h.checkpoint s).2
    rw [o.send_eq] at hsent
    exact hsent.trans (hcheckpoint.estimateIn s)
  have hraised : h.healthOrMax e.params s o.raised = .ok o.health := by
    rw [← Host.healthOrMax_congr (Host.valueOf_congr hroute hestimate)]
    exact o.health_eq
  have hholdings := o.holdings_outweighed hgrow
  exact Host.healthOrMax_le (o.debtValue_eq e.params s) hholdings hhealth hraised

end Engine

/-- Alice's position on a chain that quotes the shares of the pool in another asset than the one
that is lent. All values are in that asset. -/
def Sample.abroad : Engine × Chain :=
  let chain := Chain.initial.setQuote ⟨.poolShare 1, Chain.usdt, 1, .one, .one, none⟩
  [.createPool 1 (.tenths 50) true, .openPosition opening ⟨1, 0⟩].foldl
    (fun w op => (w.1.perform Chain.host op w.2).2) (valuedIn Chain.usdt, chain)

namespace Engine

/-- Alice owes 4000, and her shares are worth 4884. With 500 more of what is lent, which is worth as
much in the base currency, her health rises. -/
theorem top_up_of_alice_raises_health :
    let k : PositionKey := ⟨Sample.alice, 1⟩
    let raised := addCollateral Chain.host k ⟨.usdc, { units := 500 }⟩ Sample.abroad
    let before : Decimal := { negative := false, mantissa := 1221, scale := 3 }
    let after : Decimal := { negative := false, mantissa := 1346, scale := 3 }
    Sample.abroad.1.positionHealth Chain.host k Sample.abroad.2 = .ok before ∧
      raised.1 = .ok after ∧ before ≤ after := by
  intro k raised before after
  have hbefore : Sample.abroad.1.positionHealth Chain.host k Sample.abroad.2 = .ok before := by
    decide +kernel
  have hafter : raised.1 = .ok after := by decide +kernel
  obtain ⟨p, hfound, -⟩ := except_bind_eq_ok.1 hbefore
  exact ⟨hbefore, hafter, top_up_never_worsens_health host_checkpointsQuietly
    Chain.host_sendsQuietly hfound (Chain.host_estimatesGrow _ _ _) hbefore (eq_of_fst hafter)⟩

end Engine

end LeveragedLp
