import LeveragedLp.Proofs.Payments

/-!
# The accounts of a position

The record of an open position goes back to its opening: in between there were only the top-ups and
the levies of the run (`Engine.run_record`), and so its accounts tell what these came to
(`Engine.run_accounts`). Two things make the step from one request to a run. A number is given out
once, so that nothing was added to a position or charged to it before it was opened; and the policy
does not change while a position is open.
-/

set_option autoImplicit false

namespace LeveragedLp

open Engine

/-! ## From the opening on -/

/-- A request opened a position, with the record `p`. -/
structure Engine.Opens (e : Engine) (q : Request) (p : Position) (response : Response) : Prop where
  answered : e.respond q = .ok (.opened response)
  asked : ∃ r block custody, q.op = .openPosition r block ∧
    p = { r.position response.positionId block response.liabilities custody with
      health := response.health }
  filed : (e.next q).book.position p.key = .ok p

/-- A request of a run opened a position, while a policy was in force. -/
def Engine.OpenedIn (e : Engine) (qs : List Request) (p : Position) (response : Response)
    (policy : InterestPolicy) : Prop :=
  ∃ pre q post, qs = pre ++ q :: post ∧ (e.run pre).params.interestPolicy = policy ∧
    (e.run pre).Opens q p response

section

variable {σ κ : Type} {h : Host σ κ} {e e' : Engine} {op : Operation} {s t : σ} {k : PositionKey}
variable {answer : Except Fault Answer}

/-- Nothing is added to a position that is not open. -/
theorem Outcome.adds_eq_zero (x : Outcome h e s op answer e' t)
    (hunknown : e.book.position? k = none) : op.adds answer k = 0 := by
  cases x with
  | refused fault fallible rests => cases op <;> rfl
  | @toppedUp l coin t o =>
      refine if_neg fun hsame => ?_
      have hopen := Book.isSome_of_position o.found_eq
      rw [hsame, hunknown] at hopen
      cases hopen
  | administered pools administers fits => cases op <;> first | rfl | cases administers
  | _ => rfl

end

/-- A number that was not given out is not in use. -/
theorem Book.Sound.unknown {b : Book} {n : Nat} (hb : b.Sound n) {k : PositionKey}
    (hk : n < k.id.toNat) : b.position? k = none := by
  refine Registry.get?_eq_none_iff.2 fun p hp hkey => ?_
  have hid : p.id = k.id := congrArg PositionKey.id hkey
  have hle := hb.ids p hp
  rw [hid] at hle
  omega

namespace Engine

variable {e : Engine} {q : Request} {qs : List Request} {k : PositionKey} {p : Position} {n : Nat}
variable {response : Response} {policy : InterestPolicy}

/-- What a request leaves of a position: it was opened by the request, under the next number, or it
is carried on. -/
theorem next_record (hfound : (e.next q).book.position k = .ok p) :
    e.Carried (q.op.adds (e.respond q)) (levies q.host e q.op q.state) (e.next q) k p ∨
      (∃ response, e.Opens q p response) ∧ k.id = e.book.nextId ∧
        (e.next q).params.interestPolicy = e.params.interestPolicy := by
  refine (e.next_outcome q).record hfound |>.imp_right ?_
  rintro ⟨r, block, o, hop, hanswer, hnext, hposition⟩
  have hkey : p.key = k := Book.key_of_position hfound
  subst hposition
  refine ⟨⟨o.response, hanswer, ⟨r, block, o.custody, hop, rfl⟩, ?_⟩, ?_, ?_⟩
  · rw [hkey]
    exact hfound
  · rw [← hkey]
    rfl
  · rw [hnext]
    rfl

theorem OpenedIn.now (hopens : e.Opens q p response) :
    e.OpenedIn (q :: qs) p response e.params.interestPolicy := ⟨[], q, qs, rfl, rfl, hopens⟩

theorem OpenedIn.later (hopened : (e.next q).OpenedIn qs p response policy) :
    e.OpenedIn (q :: qs) p response policy := by
  obtain ⟨pre, r, post, rfl, hpolicy, hopens⟩ := hopened
  exact ⟨q :: pre, r, post, rfl, hpolicy, hopens⟩

/-- Between two records a position developed by the levies and the top-ups of a run. -/
def DevelopsIn (e : Engine) (qs : List Request) (k : PositionKey) (p p' : Position) : Prop :=
  p.Develops (e.run qs).params.interestPolicy (e.toppedUp qs k)
    (Levy.total Levy.paid k (e.levied qs)) (Levy.total Levy.seconds k (e.levied qs)) p'

/-- No request touches a position under a number that was not given out before it. What the rest of
a run did to such a position is all that the run did to it. -/
theorem DevelopsIn.of_rest {p' : Position} (he : e.book.Sound n) (hk : n < k.id.toNat)
    (x : (e.next q).DevelopsIn qs k p p') : e.DevelopsIn (q :: qs) k p p' := by
  have hunknown := he.unknown hk
  have hadds := (e.next_outcome q).adds_eq_zero hunknown
  have hlevies : ∀ f, Levy.total f k (levies q.host e q.op q.state) = 0 := by
    refine fun f => Levy.total_eq_zero f k fun l hl hkey => ?_
    have hopen := Book.isSome_of_position (of_mem_levies hl).1
    rw [hkey, hunknown] at hopen
    cases hopen
  unfold DevelopsIn
  rw [toppedUp, levied, Levy.total_append, Levy.total_append, hadds, hlevies, hlevies,
    Nat.zero_add, Nat.zero_add, Nat.zero_add]
  exact x

/-- What a run tells of a position that is open after it: it was open before the run, or it was
opened in the run under a new number; and since then it developed by the levies and top-ups. -/
theorem run_record (he : e.book.Sound n) (qs : List Request)
    (hn : n + e.openings qs < twoPow 64 - 1) (hfound : (e.run qs).book.position k = .ok p) :
    e.Carried (e.toppedUp qs) (e.levied qs) (e.run qs) k p ∨
      n < k.id.toNat ∧ ∃ opened response,
        e.OpenedIn qs opened response (e.run qs).params.interestPolicy ∧
        e.DevelopsIn qs k opened p := by
  induction qs generalizing e n with
  | nil => exact .inl ⟨rfl, p, hfound, .refl p _⟩
  | cons q qs ih =>
      obtain ⟨hfirst, hrest⟩ := openings_cons_lt hn
      rcases ih (next_sound he q hfirst) hrest hfound with
        ⟨hpolicy, p₁, hfound₁, hdevelops⟩ | ⟨hk, opened, response, hopened, hdevelops⟩
      · rcases next_record hfound₁ with hcarried | ⟨⟨response, hopens⟩, hid, hsame⟩
        · -- open before the first request and after it
          refine .inl (Carried.trans ⟨hpolicy, p₁, hfound₁, hdevelops⟩ fun p₂ hp₂ => ?_)
          cases hfound₁.symm.trans hp₂
          exact hcarried
        · -- opened by the first request
          have hk : n < k.id.toNat := by
            rw [hid, he.nextId]
            exact Nat.lt_succ_self n
          have hnow : (e.run (q :: qs)).params.interestPolicy = e.params.interestPolicy :=
            hpolicy.trans hsame
          rw [← hpolicy] at hdevelops
          refine .inr ⟨hk, p₁, response, ?_, DevelopsIn.of_rest he hk hdevelops⟩
          rw [hnow]
          exact .now hopens
      · -- opened later
        have hk : n < k.id.toNat := Nat.lt_of_le_of_lt (Nat.le_add_right _ _) hk
        exact .inr ⟨hk, opened, response, hopened.later, hdevelops.of_rest he hk⟩

/-- After a run from a new engine, every open position goes back to its opening. -/
theorem run_origin {params : Params} (hnew : create params = .ok e) (qs : List Request)
    (hfew : e.openings qs < twoPow 64 - 1) (hfound : (e.run qs).book.position k = .ok p) :
    ∃ opened response, e.OpenedIn qs opened response (e.run qs).params.interestPolicy ∧
      e.DevelopsIn qs k opened p := by
  rw [← Nat.zero_add (e.openings qs)] at hfew
  rcases run_record (create_sound hnew) qs hfew hfound with ⟨-, p₀, hfound₀, -⟩ | ⟨-, horigin⟩
  · rw [create_eq_ok hnew] at hfound₀
    cases hfound₀
  · exact horigin

end Engine

/-! ## Accounts -/

/-- The accounts of a position that was lent so many units. What was added to it is free or was
paid as interest. The liabilities are what was lent, and stacked interest that was not paid. -/
structure Position.Accounts (p : Position) (policy : InterestPolicy) (lent added paid : Nat) :
    Prop where
  free : p.freeCollateral.units + p.interestPaid.units = added
  paid : p.interestPaid.units = paid
  stacked : policy = .stacked → p.liabilities.units = lent + p.interestUnpaid.units
  separate : policy = .separate → p.liabilities.units = lent

/-- A new position has nothing added, paid or charged to it. -/
theorem Engine.Opens.accounts {e : Engine} {q : Request} {p : Position} {response : Response}
    (x : e.Opens q p response) (policy : InterestPolicy) :
    p.Accounts policy response.liabilities.units 0 0 ∧ p.accruedUntil = p.openedAt := by
  obtain ⟨r, block, custody, -, rfl⟩ := x.asked
  exact ⟨⟨rfl, rfl, fun _ => rfl, fun _ => rfl⟩, rfl⟩

theorem Position.Develops.accounts {p q : Position} {policy : InterestPolicy}
    {lent added paid added' paid' seconds : Nat} (x : p.Develops policy added' paid' seconds q)
    (hp : p.Accounts policy lent added paid) :
    q.Accounts policy lent (added + added') (paid + paid') where
  free := by rw [x.free, hp.free]
  paid := by rw [x.paid, hp.paid]
  stacked := by
    rintro rfl
    have hprincipal := x.principal
    have hlent := hp.stacked rfl
    simp only [Position.principal] at hprincipal
    omega
  separate := by
    rintro rfl
    have hprincipal := x.principal
    have hlent := hp.separate rfl
    simp only [Position.principal] at hprincipal
    omega

namespace Engine

/-- **The accounts of a position.** After a run from a new engine, with any hosts, every open
position was opened in the run, under the policy that is still in force, and has the terms it was
opened on; its accounts tell what was added to it, what was paid for it, and what it was lent. Each
payment of interest that stands was made for the position of one levy. -/
theorem run_accounts {params : Params} {e : Engine} (hnew : create params = .ok e)
    (qs : List Request) (hfew : e.openings qs < twoPow 64 - 1) :
    (e.journal qs).payments = (e.levied qs).flatMap Levy.calls ∧
      ∀ p ∈ (e.run qs).book.positions.toList, ∃ opened response,
        e.OpenedIn qs opened response (e.run qs).params.interestPolicy ∧
        p.terms = opened.terms ∧
        p.Accounts (e.run qs).params.interestPolicy response.liabilities.units
          (e.toppedUp qs p.key) (Levy.total Levy.paid p.key (e.levied qs)) := by
  refine ⟨e.journal_payments qs, fun p hp => ?_⟩
  have hfound : (e.run qs).book.position p.key = .ok p :=
    Book.position_eq_ok.2 (Registry.get?_key hp)
  obtain ⟨opened, response, hopened, hdevelops⟩ := run_origin hnew qs hfew hfound
  refine ⟨opened, response, hopened, hdevelops.terms, ?_⟩
  obtain ⟨pre, q, post, -, -, hopens⟩ := hopened
  have haccounts := hdevelops.accounts (hopens.accounts _).1
  rw [Nat.zero_add, Nat.zero_add] at haccounts
  exact haccounts

/-- Alice's top-up of 60 pays a part of her interest, and the rest of it joins her debt; Bob added
nothing, and so he paid nothing. -/
theorem top_up_pays_interest :
    let qs := Sample.lifetime.take 5
    Sample.engine.toppedUp qs ⟨Sample.alice, 1⟩ = 60 ∧
      Levy.total Levy.paid ⟨Sample.alice, 1⟩ (Sample.engine.levied qs) = 60 ∧
      Levy.total Levy.paid ⟨Sample.bob, 2⟩ (Sample.engine.levied qs) = 0 ∧
      (Sample.engine.journal qs).payments = (Sample.engine.levied qs).flatMap Levy.calls ∧
      ∀ p ∈ (Sample.engine.run qs).book.positions.toList, ∃ opened response,
        Sample.engine.OpenedIn qs opened response .stacked ∧ p.terms = opened.terms ∧
        p.Accounts .stacked response.liabilities.units (Sample.engine.toppedUp qs p.key)
          (Levy.total Levy.paid p.key (Sample.engine.levied qs)) :=
  ⟨by decide +kernel, by decide +kernel, by decide +kernel,
    run_accounts Sample.engine_new _ ((openings_le_length _ _).trans_lt (by decide +kernel))⟩

end Engine

end LeveragedLp
