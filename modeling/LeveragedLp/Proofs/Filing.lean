import LeveragedLp.Proofs.Development
import LeveragedLp.Proofs.Lives
import LeveragedLp.Proofs.Outcomes

/-!
# How positions are filed

A number is given out when an opening succeeds, and never again: the openings of a run answer with
one, two, three and so on, whatever was refused or closed in between (`Engine.run_numbers`). What an
opening files keeps its terms for as long as it is open, because no other turn touches them, and the
parameters in force are always ones that were validated. Both are kept by every turn, as long as
the numbers last (`Engine.Filed`); `Engine.WellFormed` collects what can be relied on of an engine
after any run.
-/

set_option autoImplicit false

namespace LeveragedLp

open Engine

/-! ## The terms of a position -/

namespace Pool

theorem admits_eq_ok {p : Pool} {leverage : Decimal} (h : p.admits leverage = .ok ()) :
    p.accepting = .ok () ∧ Decimal.one ≤ leverage ∧ leverage ≤ p.leverageMax := by
  obtain ⟨_, haccepting, h⟩ := except_bind_eq_ok.1 h
  by_cases hout : leverage < .one ∨ p.leverageMax < leverage
  · rw [if_pos hout] at h
    cases h
  · obtain ⟨hlow, hhigh⟩ := not_or.1 hout
    refine ⟨haccepting, ?_, ?_⟩
    · by_contra hle
      exact hlow (Decimal.not_le.1 hle)
    · by_contra hle
      exact hhigh (Decimal.not_le.1 hle)

end Pool

/-- What every opening gives its position: a number, the long side of the market, no less than its
own collateral, and shares of its own pool. -/
structure Position.WellOpened (p : Position) : Prop where
  number : 1 ≤ p.id.toNat
  direction : p.direction = .long
  leverage : Decimal.one ≤ p.leverage
  custody : p.custody.denom = .poolShare p.pool

/-- All of it is settled by the terms of the position. -/
theorem Position.WellOpened.of_terms {p q : Position} (hp : p.WellOpened)
    (hterms : q.terms = p.terms) : q.WellOpened := by
  have hq : q.terms.WellOpened := by
    rw [hterms]
    exact ⟨hp.number, hp.direction, hp.leverage, hp.custody⟩
  exact ⟨hq.number, hq.direction, hq.leverage, hq.custody⟩

/-- A book in which every position is well opened. -/
def Book.AllWellOpened (b : Book) : Prop := ∀ p ∈ b.positions.toList, p.WellOpened

section

variable {σ κ : Type} {h : Host σ κ} {op : Operation} {e e' : Engine} {s t : σ} {n m d : Nat}

/-- A request that was not refused is for a long position with enough leverage. -/
theorem Opening.wellOpened {r : OpenRequest} {block : Block} (o : Opening h r block e s t)
    (hnext : 1 ≤ e.book.nextId.toNat) : o.position.WellOpened := by
  have hadmitted := checkRequest_eq_ok o.check_eq
  obtain ⟨pool, -, hadmits⟩ := hadmitted.pool
  exact ⟨hnext, hadmitted.direction, (Pool.admits_eq_ok hadmits).2.1, rfl⟩

/-- What the terms of a position settle holds of all open positions, as long as it holds of those
that are opened. -/
theorem Turn.forall_positions {P : Position → Prop} (x : Turn h op e s m d e' t)
    (hterms : ∀ p q, q.terms = p.terms → P p → P q)
    (hopened : ∀ {r : OpenRequest} {block : Block} {t : σ} (o : Opening h r block e s t),
      P o.position)
    (he : ∀ p ∈ e.book.positions.toList, P p) : ∀ p ∈ e'.book.positions.toList, P p := by
  -- a record that is filed is new, or follows on one with the same terms
  have hput {b : Book} {q : Position} (hb : b.positions = e.book.positions) (hq : P q) :
      ∀ p ∈ (b.put q).positions.toList, P p := by
    intro p hp
    rcases Registry.mem_toList_insert.1 hp with rfl | ⟨hold, -⟩
    · exact hq
    · exact he p (hb ▸ hold)
  have hfound {k : PositionKey} {p : Position} (hp : e.book.position k = .ok p) : P p :=
    he p (Registry.mem_toList_of_get? (Book.position_eq_ok.1 hp))
  cases x with
  | rest same rests quiet =>
      rw [same.positions]
      exact he
  | track pool leverageMax enabled untracked => exact he
  | revise tracked revises => exact he
  | openPosition asked o => exact hput rfl (hopened o)
  | topUp asked o => exact hput rfl (hterms _ _ o.develops.terms (hfound o.found_eq))
  | charge o => exact hput rfl (hterms _ _ o.develops.terms (hfound o.found_eq))
  | close found o asked => exact fun p hp => he p (Registry.mem_toList_erase.1 hp).1

theorem Turn.allWellOpened (x : Turn h op e s m d e' t) (hnext : 1 ≤ e.book.nextId.toNat)
    (he : e.book.AllWellOpened) : e'.book.AllWellOpened :=
  x.forall_positions (fun _ _ hterms hp => hp.of_terms hterms) (fun o => o.wellOpened hnext) he

/-- Parameters are validated before they are put in force. -/
theorem Turn.params_valid (x : Turn h op e s m d e' t) (he : e.params.validate = .ok ()) :
    e'.params.validate = .ok () := by
  cases x with
  | rest same rests quiet =>
      cases quiet with
      | params valid => exact valid
      | _ => exact he
  | _ => exact he

/-! ## What turns and runs keep -/

/-- An engine after so many openings, with valid parameters and its positions well opened. -/
structure Engine.Filed (e : Engine) (n : Nat) : Prop where
  sound : e.book.Sound n
  params : e.params.validate = .ok ()
  positions : e.book.AllWellOpened

theorem Turn.filed (x : Turn h op e s m d e' t) (he : e.Filed n) (hn : n + m < twoPow 64 - 1) :
    e'.Filed (n + m) := by
  have hnext : 1 ≤ e.book.nextId.toNat := by
    rw [he.sound.nextId]
    omega
  exact ⟨x.sound he.sound hn, x.params_valid he.params, x.allWellOpened hnext he.positions⟩

theorem Turns.filed (x : Turns h op e s m d e' t) (he : e.Filed n) (hn : n + m < twoPow 64 - 1) :
    e'.Filed (n + m) := by
  induction x with
  | none => exact he
  | more before last ih =>
      -- the numbers that last for all turns last for those before
      rw [← Nat.add_assoc] at hn ⊢
      exact last.filed (ih (by omega)) hn

end

namespace Engine

variable {e : Engine} {n : Nat}

theorem next_filed (he : e.Filed n) (q : Request)
    (hn : n + countOk Answer.openings (e.respond q) < twoPow 64 - 1) :
    (e.next q).Filed (n + countOk Answer.openings (e.respond q)) :=
  (perform_turns q.host e q.op q.state).filed he hn

theorem run_filed (he : e.Filed n) (qs : List Request) (hn : n + e.openings qs < twoPow 64 - 1) :
    (e.run qs).Filed (n + e.openings qs) := by
  induction qs generalizing e n with
  | nil => exact he
  | cons q qs ih =>
      obtain ⟨hfirst, hrest⟩ := openings_cons_lt hn
      rw [openings, total_cons, ← Nat.add_assoc]
      exact ih (next_filed he q hfirst) hrest

theorem filed_of_create {params : Params} (hnew : create params = .ok e) : e.Filed 0 := by
  have hvalid : params.validate = .ok () := (except_bind_eq_ok.1 hnew).choose_spec.1
  rw [create_eq_ok hnew]
  exact ⟨.empty, hvalid, fun _ hp => (List.not_mem_nil hp).elim⟩

end Engine

/-! ## The numbers of a run -/

/-- The number of the position that an answer says was opened. -/
def Answer.numbers : Answer → List UInt64
  | .opened response => [response.positionId]
  | _ => []

namespace Engine

/-- The numbers of the positions that a run opened, in the order of their openings. -/
def numbers (e : Engine) (qs : List Request) : List UInt64 :=
  (e.answers qs).flatMap (toldBy Answer.numbers)

variable {e : Engine} {n : Nat}

/-- What answers that a position was opened is an opening. -/
theorem opening_of_respond {q : Request} {response : Response}
    (hanswer : e.respond q = .ok (.opened response)) :
    ∃ r block t, ∃ o : Opening q.host r block e q.state t,
      q.op = .openPosition r block ∧ response = o.response ∧ e.next q = o.after := by
  have houtcome := e.next_outcome q
  rw [hanswer] at houtcome
  generalize q.op = op, e.next q = e', (e.perform q.host q.op q.state).2.2 = t at houtcome ⊢
  cases houtcome with
  | @opened r block t o => exact ⟨r, block, _, o, rfl, rfl, rfl⟩
  | administered pools administers fits =>
      -- no operation on pools is answered so
      cases op with
      | openPosition r block => cases administers
      | _ => cases fits

/-- A request that opens a position answers with the next number, and no other has one. -/
theorem next_numbers (he : e.book.Sound n) (q : Request) :
    (toldBy Answer.numbers (e.respond q)).map UInt64.toNat =
      List.range' (n + 1) (countOk Answer.openings (e.respond q)) := by
  cases hanswer : e.respond q with
  | error fault => rfl
  | ok answer =>
      cases answer with
      | opened response =>
          obtain ⟨r, block, t, o, -, rfl, -⟩ := opening_of_respond hanswer
          show [e.book.nextId.toNat] = [n + 1]
          rw [he.nextId]
      | _ => rfl

theorem run_numbers (he : e.book.Sound n) (qs : List Request)
    (hn : n + e.openings qs < twoPow 64 - 1) :
    (e.numbers qs).map UInt64.toNat = List.range' (n + 1) (e.openings qs) := by
  induction qs generalizing e n with
  | nil => rfl
  | cons q qs ih =>
      obtain ⟨hfirst, hrest⟩ := openings_cons_lt hn
      -- the rest of the run goes on with the number behind those of the first request
      have hlater := ih (next_sound he q hfirst) hrest
      unfold numbers at hlater ⊢
      have hopenings : e.openings (q :: qs) =
          countOk Answer.openings (e.respond q) + (e.next q).openings qs := total_cons _ e q qs
      rw [answers, List.flatMap_cons, List.map_append, hlater, next_numbers he q, hopenings,
        Nat.add_right_comm n, List.range'_append_1]

/-! ## What can be relied on -/

/-- An engine after so many openings. -/
structure WellFormed (e : Engine) (opened : Nat) : Prop where
  params : e.params.validate = .ok ()
  nextId : e.book.nextId.toNat = opened + 1
  /-- A position is filed under its owner and its number. -/
  filed : ∀ k p, e.book.position? k = some p → k = ⟨p.owner, p.id⟩
  numbers : ∀ p ∈ e.book.positions.toList, 1 ≤ p.id ∧ p.id < e.book.nextId
  /-- No two positions have the same number, whoever owns them. -/
  distinct : ∀ p ∈ e.book.positions.toList, ∀ q ∈ e.book.positions.toList, p.id = q.id → p = q
  terms : ∀ p ∈ e.book.positions.toList,
    p.direction = .long ∧ Decimal.one ≤ p.leverage ∧ p.custody.denom = .poolShare p.pool
  /-- A pool is filed under its own number. -/
  tracked : ∀ id pool, e.book.pool? id = some pool → pool.id = id
  /-- Only open positions are marked for a failed accrual. -/
  marks : ∀ k ∈ e.book.retry.toList, ∃ p, e.book.position? k = some p

/-- The parts of it that other invariants give. -/
theorem wellFormed_of_filed {drained : List Event} (he : e.Filed n)
    (hrecorded : e.Recorded drained n) (horderly : e.book.Orderly) : e.WellFormed n where
  params := he.params
  nextId := he.sound.nextId
  filed := fun k p hp => (Registry.key_of_get? hp).symm
  numbers := by
    intro p hp
    rw [UInt64.le_iff_toNat_le, UInt64.lt_iff_toNat_lt, he.sound.nextId]
    exact ⟨(he.positions p hp).number, Nat.lt_succ_of_le (he.sound.ids p hp)⟩
  distinct := by
    intro p hp q hq hid
    have hkeys : ∀ x ∈ e.book.positions.toList, x.key ∈ e.book.openKeys := fun x hx =>
      Book.openKeys_of_position (Book.position_eq_ok.2 (Registry.get?_key hx))
    have hkey : p.key = q.key :=
      hrecorded.logged.distinct p.key (hkeys p hp) q.key (hkeys q hq) hid
    have hget := Registry.get?_key hp
    change e.book.positions.get? p.key = some p at hget
    rw [hkey] at hget
    exact Option.some.inj (hget.symm.trans (Registry.get?_key hq))
  terms := fun p hp =>
    ⟨(he.positions p hp).direction, (he.positions p hp).leverage, (he.positions p hp).custody⟩
  tracked := fun id pool hpool => Registry.key_of_get? hpool
  marks := fun k hk => Option.isSome_iff_exists.1 (horderly.marks k hk)

/-- **Numbers and records.** In every run of a new engine that does not use the numbers up, the
`k`-th opening to succeed answers with the number `k`, and after it every record is filed under its
own key, with a number of its own and the terms of an opening. -/
theorem run_wellFormed {params : Params} (hnew : create params = .ok e) (qs : List Request)
    (hfew : e.openings qs < twoPow 64 - 1) :
    (e.numbers qs).map UInt64.toNat = List.range' 1 (e.openings qs) ∧ (e.numbers qs).Nodup ∧
      (e.run qs).WellFormed (e.openings qs) := by
  have hn : 0 + e.openings qs < twoPow 64 - 1 := by rwa [Nat.zero_add]
  have hnumbers := run_numbers (create_sound hnew) qs hn
  have hfiled := run_filed (filed_of_create hnew) qs hn
  have hrecorded := run_recorded (recorded_of_create hnew) qs hn
  rw [Nat.zero_add] at hnumbers hfiled hrecorded
  refine ⟨hnumbers, ?_, wellFormed_of_filed hfiled hrecorded ((Reachable.new hnew).run qs).orderly⟩
  -- numbers that ascend one by one are different
  apply List.Nodup.of_map UInt64.toNat
  rw [hnumbers]
  exact List.nodup_range'

/-- Bob is first refused for too much leverage. He is given the number behind Alice's when he comes
back, although her position is closed by then, and his own is marked for a failed accrual. -/
theorem refusal_uses_no_number :
    let chain := Chain.initial.fail ⟨.payInterest, .rejected "closed for the day", true⟩
    let refused := { Sample.opening with owner := Sample.bob, leverage := .tenths 90 }
    let qs := Sample.inTurn Sample.engine chain
      [.createPool 1 (.tenths 50) true,
       .openPosition Sample.opening ⟨1, 0⟩,
       .openPosition refused ⟨1, 0⟩,
       .close ⟨Sample.alice, 1⟩ ⟨2, 788400⟩,
       .openPosition { refused with leverage := .tenths 20 } ⟨2, 788400⟩,
       .addCollateral ⟨Sample.bob, 2⟩ ⟨.usdc, { units := 60 }⟩,
       .accrueEpoch ⟨3, 1576800⟩]
    Sample.engine.numbers qs = [1, 2] ∧
      (Sample.engine.run qs).book.retry.toList = [⟨Sample.bob, 2⟩] ∧
      (Sample.engine.run qs).WellFormed (Sample.engine.openings qs) :=
  ⟨by decide +kernel, by decide +kernel,
    (run_wellFormed Sample.engine_new _
      ((openings_le_length _ _).trans_lt (by decide +kernel))).2.2⟩

end Engine

end LeveragedLp
