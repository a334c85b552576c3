/-
Two latches that tell each other what they change to: how often the bits on the way turn,
what stays the same about that, and when there is always something on the way.
-/
import Mathlib.Data.Bool.Basic
import Mathlib.Tactic.SplitIfs

namespace Opensesh

open List

/-- How often `state` turns when it follows the bits. -/
def turns : Bool → List Bool → Nat
  | _, [] => 0
  | state, bit :: rest => (bit != state).toNat + turns bit rest

/-- What `state` is after the bits. -/
def lastBit : Bool → List Bool → Bool
  | state, [] => state
  | _, bit :: rest => lastBit bit rest

theorem bne_le (first middle last : Bool) :
    (first != last).toNat ≤ (middle != last).toNat + (first != middle).toNat := by
  revert first middle last
  decide

theorem turns_append (state bit : Bool) (bits : List Bool) :
    turns state (bits ++ [bit]) = turns state bits + (bit != lastBit state bits).toNat := by
  induction bits generalizing state with
  | nil => exact Nat.add_comm _ _
  | cons head rest ih =>
    rw [cons_append, turns, turns, lastBit, ih head, Nat.add_assoc]

theorem lastBit_append (state bit : Bool) (bits : List Bool) :
    lastBit state (bits ++ [bit]) = bit := by
  induction bits generalizing state with
  | nil => rfl
  | cons head rest ih => exact ih head

theorem le_turns (state : Bool) (bits : List Bool) :
    (lastBit state bits != state).toNat ≤ turns state bits := by
  induction bits generalizing state with
  | nil =>
    rw [lastBit, bne_self_eq_false]
    exact Nat.le_refl 0
  | cons head rest ih =>
    have hrest := ih head
    have hturn := bne_le (lastBit head rest) head state
    rw [turns, lastBit]
    omega

theorem two_le_turns_iff (bits : List Bool) :
    2 ≤ turns false bits ↔
      ∃ before between after, bits = before ++ true :: between ++ false :: after := by
  constructor
  · intro htwo
    induction bits with
    | nil => exact absurd htwo (by decide)
    | cons head rest ih =>
      cases head with
      | false =>
        rw [turns, bne_self_eq_false, Bool.toNat_false, Nat.zero_add] at htwo
        obtain ⟨before, between, after, rfl⟩ := ih htwo
        exact ⟨false :: before, between, after, rfl⟩
      | true =>
        have hone : 1 ≤ turns true rest := by
          have hturn : (true != false).toNat = 1 := rfl
          rw [turns, hturn] at htwo
          omega
        have hoff : false ∈ rest := by
          by_contra hnone
          have hzero : turns true rest = 0 := by
            clear htwo ih hone
            induction rest with
            | nil => rfl
            | cons bit rest ih =>
              have hbit : bit = true := by
                cases bit with
                | true => rfl
                | false => exact absurd mem_cons_self hnone
              subst hbit
              rw [turns, ih fun h => hnone (mem_cons_of_mem true h)]
              rfl
          omega
        obtain ⟨between, after, rfl⟩ := append_of_mem hoff
        exact ⟨[], between, after, rfl⟩
  · rintro ⟨before, between, after, rfl⟩
    have hoff : ∀ between, 1 ≤ turns true (between ++ false :: after) := by
      intro between
      induction between with
      | nil =>
        rw [List.nil_append, turns]
        exact Nat.le_add_right 1 _
      | cons bit between ih =>
        cases bit with
        | true =>
          rw [cons_append, turns]
          exact Nat.le_add_left_of_le ih
        | false =>
          rw [cons_append, turns]
          exact Nat.le_add_right 1 _
    have hon : ∀ state, (true != state).toNat + 1 ≤
        turns state (before ++ true :: between ++ false :: after) := by
      induction before with
      | nil =>
        intro state
        rw [List.nil_append, cons_append, turns]
        exact Nat.add_le_add_left (hoff between) _
      | cons bit before ih =>
        intro state
        have hrest := ih bit
        have hturn := bne_le true bit state
        rw [cons_append, cons_append, turns]
        omega
    exact hon false

/-- Two latches and the bits on the way to each. -/
structure Latches where
  first : Bool
  toFirst : List Bool
  second : Bool
  toSecond : List Bool

namespace Latches

def swap (latches : Latches) : Latches :=
  ⟨latches.second, latches.toSecond, latches.first, latches.toFirst⟩

/-- A latch takes a bit; when it changes, it tells the other. -/
inductive Step : Latches → Latches → Prop where
  | same {first second : Bool} {rest toSecond : List Bool} :
      Step ⟨first, first :: rest, second, toSecond⟩ ⟨first, rest, second, toSecond⟩
  | changed {first second : Bool} {rest toSecond : List Bool} :
      Step ⟨!first, first :: rest, second, toSecond⟩ ⟨first, rest, second, toSecond ++ [first]⟩
  | swap {latches latches' : Latches} : Step latches latches' → Step latches.swap latches'.swap

/-- The turns on the way beyond those that the latches' difference explains. -/
def excess (latches : Latches) : Int :=
  (turns latches.first latches.toFirst : Int) -
      (lastBit latches.first latches.toFirst != latches.second).toNat +
    ((turns latches.second latches.toSecond : Int) -
      (lastBit latches.second latches.toSecond != latches.first).toNat)

theorem excess_swap (latches : Latches) : latches.swap.excess = latches.excess := Int.add_comm _ _

/-- Taking a bit keeps the excess. -/
theorem excess_step {latches latches' : Latches} (hstep : Step latches latches') :
    latches'.excess = latches.excess := by
  induction hstep with
  | @same first second rest toSecond =>
    rw [excess, excess]
    dsimp only
    rw [turns, lastBit, bne_self_eq_false, Bool.toNat_false, Nat.zero_add]
  | @changed first second rest toSecond =>
    rw [excess, excess]
    dsimp only
    rw [turns_append, lastBit_append, turns, lastBit, bne_self_eq_false]
    generalize lastBit first rest = last
    generalize lastBit second toSecond = last'
    cases first <;> cases last' <;> simp <;> omega
  | swap _ ih => rw [excess_swap, excess_swap, ih]

/-- With turns to spare there is always something on the way. -/
theorem some_of_excess {latches : Latches} (hexcess : 0 < latches.excess) :
    latches.toFirst ≠ [] ∨ latches.toSecond ≠ [] := by
  by_contra hnone
  rw [not_or, not_not, not_not] at hnone
  rw [excess, hnone.1, hnone.2, turns, turns, lastBit, lastBit] at hexcess
  omega

/-- Two latches that are off, and bits that turn one of them on and off again. -/
theorem excess_start {toFirst : List Bool} (toSecond : List Bool)
    (htwo : 2 ≤ turns false toFirst) : 0 < excess ⟨false, toFirst, false, toSecond⟩ := by
  have hsecond := le_turns false toSecond
  have hfirst := Bool.toNat_le (lastBit false toFirst != false)
  rw [excess]
  dsimp only
  omega

end Latches

/-- A latch that at most turns on. -/
def Rises (state : Bool) (bits : List Bool) : Prop := turns state bits + state.toNat ≤ 1

theorem rises_same {state : Bool} {rest : List Bool} (h : Rises state (state :: rest)) :
    Rises state rest := by
  rw [Rises, turns, bne_self_eq_false, Bool.toNat_false, Nat.zero_add] at h
  exact h

theorem rises_changed {bit : Bool} {rest : List Bool} (h : Rises (!bit) (bit :: rest)) :
    bit = true ∧ Rises bit rest := by
  rw [Rises, turns] at h
  cases bit with
  | true =>
    refine ⟨rfl, ?_⟩
    rw [Rises]
    simp at h ⊢
    omega
  | false =>
    simp at h

theorem rises_append {state : Bool} {bits : List Bool} (h : Rises state bits) :
    Rises state (bits ++ [true]) := by
  induction bits generalizing state with
  | nil => cases state <;> exact Nat.le_refl 1
  | cons bit rest ih =>
    rw [Rises, turns] at h
    have hrest : Rises bit rest := by
      rw [Rises]
      cases bit <;> cases state <;> simp at h ⊢ <;> omega
    have happended := ih hrest
    rw [Rises] at happended
    rw [Rises, cons_append, turns]
    cases bit <;> cases state <;> simp at h happended ⊢ <;> omega

end Opensesh
