import LeveragedLp.Proofs.Filing

/-!
# The shares of a pool and their name

The shares of the pool `n` are the asset `amm/pool/n`. This text always follows the grammar of
denominations, since digits are among its characters and a machine word has few of them; and a
pool can be told from it, since a number can be told from its digits (`Denom.poolShare_inj`). An
opening gives its position the shares of its own pool as custody, and nothing changes them later
(`Engine.Reachable.holdsShares`). So the assets held for two positions are the same just where
their pools are.
-/

set_option autoImplicit false

namespace LeveragedLp

open Engine

namespace Denom

/-- The text of a pool's shares is accepted, and read as these shares. -/
theorem ofText_poolShareText (pool : UInt64) :
    ofText (poolShareText pool) = .ok (poolShare pool) :=
  orFault_eq_ok.2 (dif_pos (isDenomText_poolShareText pool))

/-- Two pools with the same text have the same digits. -/
theorem poolShareText_injective {i j : UInt64} (h : poolShareText i = poolShareText j) : i = j := by
  have hdigits : toString i.toNat = toString j.toNat := (String.append_right_inj _).1 h
  exact UInt64.toNat_inj.1 (Nat.repr_injective hdigits)

/-- **No two pools share a denomination.** -/
theorem poolShare_inj {i j : UInt64} : poolShare i = poolShare j ↔ i = j := by
  constructor
  · intro h
    exact poolShareText_injective (congrArg text h)
  · rintro rfl
    rfl

end Denom

/-! ## What is held for positions -/

section

variable {σ κ : Type} {h : Host σ κ} {op : Operation} {e e' : Engine} {s t : σ} {m d : Nat}

/-- What is held for every open position are shares of its own pool. -/
def Engine.HoldsShares (e : Engine) : Prop :=
  ∀ p ∈ e.book.positions.toList, p.custody.denom = .poolShare p.pool

/-- Pool and custody asset are settled by the terms of a position. -/
theorem Position.custody_eq_of_terms {p q : Position} (hterms : q.terms = p.terms)
    (hp : p.custody.denom = .poolShare p.pool) : q.custody.denom = .poolShare q.pool := by
  have hq : q.terms.custody.denom = .poolShare q.terms.pool := by
    rw [hterms]
    exact hp
  exact hq

theorem Turn.holdsShares (x : Turn h op e s m d e' t) (he : e.HoldsShares) : e'.HoldsShares :=
  x.forall_positions (fun _ _ => Position.custody_eq_of_terms) (fun _ => rfl) he

theorem Turns.holdsShares (x : Turns h op e s m d e' t) (he : e.HoldsShares) : e'.HoldsShares := by
  induction x with
  | none => exact he
  | more before last ih => exact last.holdsShares ih

theorem Engine.Reachable.holdsShares (he : e.Reachable) : e.HoldsShares := by
  induction he with
  | new created =>
      rw [create_eq_ok created]
      exact fun _ hp => (List.not_mem_nil hp).elim
  | next before q ih => exact (perform_turns q.host _ q.op q.state).holdsShares ih

end

namespace Engine

/-- **The shares of a pool are named after it, and after no other.** The text made of a pool's
number is a denomination, and two pools with the same one are the same. After any requests, what is
held for an open position has such a name, that of its own pool; so two positions hold the same
asset just where they are in the same pool. -/
theorem pool_shares_name_their_pool (i j : UInt64) :
    Denom.ofText ("amm/pool/" ++ toString i.toNat) = .ok (.poolShare i) ∧
      (Denom.poolShare i = .poolShare j → i = j) ∧
      ∀ e : Engine, e.Reachable → ∀ p ∈ e.book.positions.toList,
        Denom.ofText p.custody.denom.text = .ok p.custody.denom ∧
          (p.custody.denom = .poolShare i ↔ p.pool = i) ∧
          ∀ q ∈ e.book.positions.toList,
            p.custody.denom = q.custody.denom ↔ p.pool = q.pool := by
  refine ⟨Denom.ofText_poolShareText i, Denom.poolShare_inj.1, ?_⟩
  intro e he p hp
  have hshares := he.holdsShares p hp
  refine ⟨?_, ?_, ?_⟩
  · rw [hshares]
    exact Denom.ofText_poolShareText p.pool
  · rw [hshares]
    exact Denom.poolShare_inj
  · intro q hq
    rw [hshares, he.holdsShares q hq]
    exact Denom.poolShare_inj

/-- Alice holds shares of the first pool, Bob of the last that a machine word can number. -/
theorem shares_of_first_and_last_pool :
    let last : UInt64 := 18446744073709551615
    let chain := (Chain.initial.setPool ⟨last, [.usdc], { units := 300000 }, .one⟩).setQuote
      ⟨.usdc, .poolShare last, last, .one, .one, none⟩
    let quoted := chain.setQuote ⟨.poolShare last, .usdc, last, .one, .one, none⟩
    let qs := Sample.inTurn Sample.engine quoted
      [.createPool 1 (.tenths 50) true,
       .createPool last (.tenths 50) true,
       .openPosition Sample.opening ⟨1, 0⟩,
       .openPosition { Sample.opening with owner := Sample.bob, pool := last } ⟨1, 0⟩]
    (Sample.engine.run qs).Reachable ∧
      ∃ p ∈ (Sample.engine.run qs).book.positions.toList,
        ∃ q ∈ (Sample.engine.run qs).book.positions.toList,
          p.custody.denom.text = "amm/pool/1" ∧
            q.custody.denom.text = "amm/pool/18446744073709551615" ∧
            Denom.ofText q.custody.denom.text = .ok q.custody.denom ∧
            (p.custody.denom = q.custody.denom ↔ p.pool = q.pool) := by
  intro last chain quoted qs
  have hreached : (Sample.engine.run qs).Reachable := (Reachable.new Sample.engine_new).run qs
  have htexts : (Sample.engine.run qs).book.positions.toList.map (fun p => p.custody.denom.text) =
      ["amm/pool/1", "amm/pool/18446744073709551615"] := by
    decide +kernel
  obtain ⟨p, hp, hfirst⟩ := List.mem_map.1 (htexts ▸ List.mem_cons_self)
  obtain ⟨q, hq, hlast⟩ := List.mem_map.1 (htexts ▸ List.mem_cons_of_mem _ List.mem_cons_self)
  obtain ⟨-, -, hheld⟩ := pool_shares_name_their_pool 1 last
  exact ⟨hreached, p, hp, q, hq, hfirst, hlast, (hheld _ hreached q hq).1,
    (hheld _ hreached p hp).2.2 q hq⟩

end Engine

end LeveragedLp
