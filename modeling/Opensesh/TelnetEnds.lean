/-
Two ends of a telnet connection that negotiate: what hearing a command does to both, when the
negotiation ends, and what both ends know then.
-/
import Opensesh.Latches
import Opensesh.TelnetTokens
import Mathlib.Algebra.GroupWithZero.Nat
import Mathlib.Logic.Function.Iterate

namespace Opensesh.Telnet

open List

/-- One option of one kind at one end. -/
structure Position where
  side : Bool
  kind : Kind
  code : UInt8
deriving DecidableEq

/-- The same option at the other end. -/
def Position.other (pos : Position) : Position := ⟨!pos.side, pos.kind.other, pos.code⟩

theorem Position.other_other (pos : Position) : pos.other.other = pos := by
  rw [other, other, Kind.other_other, Bool.not_not]

theorem Position.other_ne (pos : Position) : pos.other ≠ pos := by
  intro h
  exact Bool.not_ne_self pos.side (congrArg Position.side h)

variable {pos : Position} {command : Command} {register' : Kind → UInt8 → Bool}
  {replies later : List Token} {view' : View} {nvt : Nvt} {inbox : List UInt8} {net : Net}
  {byte : UInt8}

theorem Position.other_eq {pos' : Position} (h : pos.other = pos') : pos = pos'.other := by
  rw [← h, other_other]

/-- Where both ends stand: the options, and the tokens on the way to each. -/
structure View where
  on : Position → Bool
  tokens : Bool → List Token

/-- What the tokens say of an option of a kind. -/
def bitsOf (kind : Kind) (code : UInt8) (tokens : List Token) : List Bool :=
  tokens.filterMap fun
    | .command given => if given.kind = kind ∧ given.code = code then some given.on else none
    | .size _ => none

def View.bits (view : View) (pos : Position) : List Bool :=
  bitsOf pos.kind pos.code (view.tokens pos.side)

def View.register (view : View) (side : Bool) (kind : Kind) (code : UInt8) : Bool :=
  view.on ⟨side, kind, code⟩

/-- One end hears a token. -/
inductive Hears : View → View → Prop where
  | size {view : View} (side : Bool) {size : TermSize} {later : List Token}
      (htokens : view.tokens side = .size size :: later) :
      Hears view { view with tokens := Function.update view.tokens side later }
  | command {view : View} (side : Bool) {command : Command} {later replies : List Token}
      {register : Kind → UInt8 → Bool} (htokens : view.tokens side = .command command :: later)
      (hanswers : Answers (view.register side) command register replies) :
      Hears view
        { on := fun pos => if pos.side = side then register pos.kind pos.code else view.on pos
          tokens := Function.update (Function.update view.tokens side later) (!side)
            (view.tokens (!side) ++ replies) }

/-- How an end takes what it is told: it refuses to turn on, it stands so already, or it
changes and tells the other end. -/
inductive Takes (view view' : View) (pos : Position) (bit : Bool) : Prop where
  | refused (hbit : bit = true) (hcode : pos.code ∉ pos.kind.allowed)
      (hon : view'.on pos = view.on pos)
      (hbits : view'.bits pos.other = view.bits pos.other ++ [false])
  | same (hsame : view.on pos = bit) (hon : view'.on pos = view.on pos)
      (hbits : view'.bits pos.other = view.bits pos.other)
  | changed (hchanged : view.on pos = !bit)
      (hcode : bit = true → pos.code ∈ pos.kind.allowed) (hon : view'.on pos = bit)
      (hbits : view'.bits pos.other = view.bits pos.other ++ [bit])

/-- What hearing a token changes: nothing about the options, or one position. -/
inductive Turn (view view' : View) : Prop where
  | quiet (hon : ∀ pos, view'.on pos = view.on pos) (hbits : ∀ pos, view'.bits pos = view.bits pos)
  | turn (pos : Position) (bit : Bool) (rest : List Bool) (hbits : view.bits pos = bit :: rest)
      (hrest : view'.bits pos = rest) (hon : ∀ p, p ≠ pos → view'.on p = view.on p)
      (hothers : ∀ p, p ≠ pos → p ≠ pos.other → view'.bits p = view.bits p)
      (htakes : Takes view view' pos bit)

theorem bitsOf_append (kind : Kind) (code : UInt8) (first second : List Token) :
    bitsOf kind code (first ++ second) = bitsOf kind code first ++ bitsOf kind code second :=
  filterMap_append

theorem bitsOf_command (command : Command) (tokens : List Token) :
    bitsOf command.kind command.code (.command command :: tokens) =
      command.on :: bitsOf command.kind command.code tokens := by
  rw [bitsOf, filterMap_cons]
  dsimp only
  rw [if_pos ⟨rfl, rfl⟩]
  rfl

theorem bitsOf_other {kind : Kind} {code : UInt8}
    (hne : ¬ (command.kind = kind ∧ command.code = code)) (tokens : List Token) :
    bitsOf kind code (.command command :: tokens) = bitsOf kind code tokens := by
  rw [bitsOf, filterMap_cons]
  dsimp only
  rw [if_neg hne]
  rfl

theorem bitsOf_sizes (kind : Kind) (code : UInt8) (sizes : List TermSize) :
    bitsOf kind code (sizes.map .size) = [] := by
  induction sizes with
  | nil => rfl
  | cons size sizes ih => exact ih

theorem bitsOf_replies {register : Kind → UInt8 → Bool}
    (hanswers : Answers register command register' replies) {kind : Kind} {code : UInt8}
    (hne : ¬ (command.kind.other = kind ∧ command.code = code)) :
    bitsOf kind code replies = [] := by
  cases hanswers with
  | refused _ _ => exact bitsOf_other hne []
  | same _ => rfl
  | changed _ _ _ =>
    rw [bitsOf_other hne]
    exact bitsOf_sizes kind code _

theorem register_replies {register : Kind → UInt8 → Bool}
    (hanswers : Answers register command register' replies) {kind : Kind} {code : UInt8}
    (hne : ¬ (kind = command.kind ∧ code = command.code)) :
    register' kind code = register kind code := by
  cases hanswers with
  | refused _ _ => rfl
  | same _ => rfl
  | changed _ _ _ => exact setRegister_of_ne hne

theorem hears_turn {view : View} (h : Hears view view') : Turn view view' := by
  cases h with
  | @size side size later htokens =>
    refine .quiet (fun _ => rfl) fun pos => ?_
    rw [View.bits, View.bits]
    dsimp only
    by_cases hside : pos.side = side
    · rw [hside, Function.update_self, htokens]
      rfl
    · rw [Function.update_of_ne hside]
  | @command side command later replies register htokens hanswers =>
    have hcross : (!side) ≠ side := Bool.not_ne_self side
    have hhere : ∀ kind code, View.bits
        { on := fun pos => if pos.side = side then register pos.kind pos.code else view.on pos
          tokens := Function.update (Function.update view.tokens side later) (!side)
            (view.tokens (!side) ++ replies) } ⟨side, kind, code⟩ = bitsOf kind code later := by
      intro kind code
      rw [View.bits]
      dsimp only
      rw [Function.update_of_ne hcross.symm, Function.update_self]
    have hthere : ∀ kind code, View.bits
        { on := fun pos => if pos.side = side then register pos.kind pos.code else view.on pos
          tokens := Function.update (Function.update view.tokens side later) (!side)
            (view.tokens (!side) ++ replies) } ⟨!side, kind, code⟩ =
          view.bits ⟨!side, kind, code⟩ ++ bitsOf kind code replies := by
      intro kind code
      rw [View.bits]
      dsimp only
      rw [Function.update_self, bitsOf_append]
      rfl
    refine .turn ⟨side, command.kind, command.code⟩ command.on
      (bitsOf command.kind command.code later) ?_ (hhere _ _) ?_ ?_ ?_
    · rw [View.bits, htokens, bitsOf_command]
    · rintro ⟨side', kind, code⟩ hne
      dsimp only
      split
      next hside =>
        obtain rfl : side' = side := hside
        exact register_replies hanswers fun h => hne (by rw [h.1, h.2])
      next => rfl
    · rintro ⟨side', kind, code⟩ hne hother
      by_cases hside : side' = side
      · subst hside
        rw [hhere, View.bits, htokens]
        refine (bitsOf_other (fun h => hne ?_) later).symm
        rw [h.1, h.2]
      · obtain rfl : side' = !side := by
          cases side' <;> cases side <;> first | rfl | exact absurd rfl hside
        rw [hthere, bitsOf_replies hanswers fun h => hother ?_, List.append_nil]
        rw [Position.other, h.1, h.2]
    · have hback := hthere command.kind.other command.code
      cases hanswers with
      | refused hon hcode =>
        rw [bitsOf_command ⟨command.kind.other, false, command.code⟩] at hback
        exact .refused hon hcode (if_pos rfl) hback
      | same hsame =>
        exact .same hsame (if_pos rfl) (hback.trans (List.append_nil _))
      | changed hchanged hcode _ =>
        refine .changed hchanged hcode ((if_pos rfl).trans (setRegister_self _ _ _ _)) ?_
        refine hback.trans ?_
        rw [bitsOf_command ⟨command.kind.other, command.on, command.code⟩]
        dsimp only
        rw [bitsOf_sizes]
        rfl

/-- Only options an end turns on are on. -/
def Allowed (view : View) : Prop := ∀ pos, view.on pos = true → pos.code ∈ pos.kind.allowed

/-- What is on at one end is on at the other, or the other is being told, or this end is. -/
def Known (view : View) : Prop :=
  ∀ pos, view.on pos = true →
    view.on pos.other = true ∨ true ∈ view.bits pos.other ∨ false ∈ view.bits pos

/-- Options both ends turn on are at most turned on. -/
def Risen (view : View) : Prop := ∀ pos, Mutual pos.code → Rises (view.on pos) (view.bits pos)

/-- An option that both ends turn on, as two latches. -/
def View.latches (view : View) (pos : Position) : Latches :=
  ⟨view.on pos, view.bits pos, view.on pos.other, view.bits pos.other⟩

theorem allowed_hears {view : View} (h : Hears view view') (hallowed : Allowed view) :
    Allowed view' := by
  intro pos hpos
  cases hears_turn h with
  | quiet hon _ => exact hallowed pos ((hon pos).symm.trans hpos)
  | turn q bit rest _ _ hon _ htakes =>
    by_cases hq : pos = q
    · subst hq
      cases htakes with
      | refused _ _ hsame _ => exact hallowed pos (hsame.symm.trans hpos)
      | same _ hsame _ => exact hallowed pos (hsame.symm.trans hpos)
      | changed _ hcode hchanged _ => exact hcode (hchanged.symm.trans hpos)
    · exact hallowed pos ((hon pos hq).symm.trans hpos)

theorem known_hears {view : View} (h : Hears view view') (hknown : Known view) : Known view' := by
  intro pos hpos
  cases hears_turn h with
  | quiet hon hbits =>
    rw [hon, hbits, hbits]
    exact hknown pos ((hon pos).symm.trans hpos)
  | turn q bit rest hbits hrest hon hothers htakes =>
    by_cases hq : pos = q
    · subst hq
      rw [hon pos.other pos.other_ne, hrest]
      cases htakes with
      | refused hbit _ hsame hgrown =>
        rcases hknown pos (hsame.symm.trans hpos) with h | h | h
        · exact .inl h
        · exact .inr (.inl (hgrown ▸ mem_append_left _ h))
        · rw [hbits, hbit] at h
          exact .inr (.inr ((mem_cons.mp h).resolve_left Bool.false_ne_true))
      | same hsame hkept hgrown =>
        have hpos' := hkept.symm.trans hpos
        rcases hknown pos hpos' with h | h | h
        · exact .inl h
        · exact .inr (.inl (hgrown ▸ h))
        · rw [hbits, ← hsame, hpos'] at h
          exact .inr (.inr ((mem_cons.mp h).resolve_left Bool.false_ne_true))
      | changed _ _ hchanged hgrown =>
        obtain rfl := hchanged.symm.trans hpos
        exact .inr (.inl (hgrown ▸ mem_append_right _ mem_cons_self))
    · by_cases hother : pos = q.other
      · subst hother
        rw [Position.other_other, hrest]
        have hpos' := (hon q.other hq).symm.trans hpos
        have hknown' := hknown q.other hpos'
        rw [Position.other_other, hbits] at hknown'
        cases htakes with
        | refused _ _ _ hgrown =>
          exact .inr (.inr (hgrown ▸ mem_append_right _ mem_cons_self))
        | same hsame hkept hgrown =>
          rcases hknown' with h | h | h
          · exact .inl (hkept.trans h)
          · rcases mem_cons.mp h with hbit | h
            · exact .inl (hkept.trans (hsame.trans hbit.symm))
            · exact .inr (.inl h)
          · exact .inr (.inr (hgrown ▸ h))
        | changed hchanged _ hset hgrown =>
          cases bit with
          | true => exact .inl hset
          | false => exact .inr (.inr (hgrown ▸ mem_append_right _ mem_cons_self))
      · have hne : pos.other ≠ q := fun h => hother (Position.other_eq h)
        have hne' : pos.other ≠ q.other := fun h => hq (by
          rw [Position.other_eq h, Position.other_other])
        rw [hon pos.other hne, hothers pos.other hne hne', hothers pos hq hother]
        exact hknown pos ((hon pos hq).symm.trans hpos)

theorem risen_hears {view : View} (h : Hears view view') (hrisen : Risen view) : Risen view' := by
  intro pos hmutual
  cases hears_turn h with
  | quiet hon hbits =>
    rw [hon, hbits]
    exact hrisen pos hmutual
  | turn q bit rest hbits hrest hon hothers htakes =>
    by_cases hq : pos = q
    · subst hq
      have hold := hrisen pos hmutual
      rw [hbits] at hold
      rw [hrest]
      cases htakes with
      | refused _ hcode _ _ => exact absurd ((mutual_iff pos.kind pos.code).mp hmutual).1 hcode
      | same hsame hkept _ =>
        rw [hkept, hsame]
        rw [hsame] at hold
        exact rises_same hold
      | changed hchanged _ hset _ =>
        rw [hchanged] at hold
        rw [hset]
        exact (rises_changed hold).2
    · have hold := hrisen pos hmutual
      rw [hon pos hq]
      by_cases hother : pos = q.other
      · subst hother
        have hq' := hrisen q hmutual
        rw [hbits] at hq'
        cases htakes with
        | refused _ hcode _ _ => exact absurd ((mutual_iff q.kind q.code).mp hmutual).1 hcode
        | same _ _ hgrown => rwa [hgrown]
        | changed hchanged _ _ hgrown =>
          rw [hchanged] at hq'
          rw [hgrown, (rises_changed hq').1]
          exact rises_append hold
      · rwa [hothers pos hq hother]

/-- An option both ends turn on is a pair of latches. -/
theorem latches_hears {view : View} (h : Hears view view') (hmutual : Mutual pos.code) :
    view'.latches pos = view.latches pos ∨ Latches.Step (view.latches pos) (view'.latches pos) := by
  have hstep : ∀ q bit rest, Mutual q.code → view.bits q = bit :: rest → view'.bits q = rest →
      view'.on q.other = view.on q.other → Takes view view' q bit →
      Latches.Step (view.latches q) (view'.latches q) := by
    intro q bit rest hmutual hbits hrest hother htakes
    rw [View.latches, View.latches, hbits, hrest, hother]
    cases htakes with
    | refused _ hcode _ _ => exact absurd ((mutual_iff q.kind q.code).mp hmutual).1 hcode
    | same hsame hkept hgrown =>
      rw [hkept, hgrown, hsame]
      exact .same
    | changed hchanged _ hset hgrown =>
      rw [hset, hgrown, hchanged]
      exact .changed
  cases hears_turn h with
  | quiet hon hbits => exact .inl (by rw [View.latches, View.latches, hon, hon, hbits, hbits])
  | turn q bit rest hbits hrest hon hothers htakes =>
    by_cases hq : pos = q
    · subst hq
      exact .inr (hstep pos bit rest hmutual hbits hrest (hon _ pos.other_ne) htakes)
    · by_cases hother : pos = q.other
      · subst hother
        have hsteps := hstep q bit rest hmutual hbits hrest (hon _ q.other_ne) htakes
        have hswap : ∀ view : View, view.latches q.other = (view.latches q).swap := by
          intro view
          rw [View.latches, Position.other_other]
          rfl
        rw [hswap, hswap]
        exact .inr (.swap hsteps)
      · have hne : pos.other ≠ q := fun h => hother (Position.other_eq h)
        have hne' : pos.other ≠ q.other := fun h => hq (by
          rw [Position.other_eq h, Position.other_other])
        exact .inl (by rw [View.latches, View.latches, hon pos hq, hon pos.other hne,
          hothers pos hq hother, hothers pos.other hne hne'])

instance (code : UInt8) : Decidable (Mutual code) := instDecidableAnd

/-- How much a token on the way can still cause. -/
def weight : Token → Nat
  | .size _ => 0
  | .command given =>
    if Mutual given.code then 1
    else if given.on then
      if given.code ∈ given.kind.allowed then 4
      else if given.code ∈ given.kind.other.allowed then 3
      else 2
    else if given.code ∈ given.kind.allowed then 2
    else 1

def weights (tokens : List Token) : Nat := (tokens.map weight).sum

/-- The options both ends turn on, at both ends. -/
def mutualPositions : List Position :=
  [⟨false, .theirs, SGA⟩, ⟨false, .theirs, BINARY⟩, ⟨false, .ours, SGA⟩, ⟨false, .ours, BINARY⟩,
    ⟨true, .theirs, SGA⟩, ⟨true, .theirs, BINARY⟩, ⟨true, .ours, SGA⟩, ⟨true, .ours, BINARY⟩]

/-- What the options and the tokens on the way can still cause. -/
def load (view : View) : Nat :=
  weights (view.tokens false) + weights (view.tokens true) +
    mutualPositions.countP fun pos => !view.on pos

theorem mutual_cases {code : UInt8} (hmutual : Mutual code) : code = SGA ∨ code = BINARY := by
  obtain ⟨htheirs, hours⟩ := hmutual
  simp only [THEIRS, OURS, mem_cons, not_mem_nil, or_false] at htheirs hours
  rcases htheirs with rfl | rfl | rfl
  · exact absurd hours (by decide)
  · exact .inl rfl
  · exact .inr rfl

theorem mem_mutualPositions : pos ∈ mutualPositions ↔ Mutual pos.code := by
  constructor
  · intro hmem
    simp only [mutualPositions, mem_cons, not_mem_nil, or_false] at hmem
    rcases hmem with rfl | rfl | rfl | rfl | rfl | rfl | rfl | rfl <;> exact ⟨by decide, by decide⟩
  · intro hmutual
    obtain ⟨side, kind, code⟩ := pos
    rcases mutual_cases hmutual with h | h
    · obtain rfl : code = SGA := h
      cases side <;> cases kind <;> simp [mutualPositions]
    · obtain rfl : code = BINARY := h
      cases side <;> cases kind <;> simp [mutualPositions]

theorem weights_append (first second : List Token) :
    weights (first ++ second) = weights first + weights second := by
  rw [weights, weights, weights, map_append, sum_append]

theorem weights_sizes (sizes : List TermSize) : weights (sizes.map .size) = 0 := by
  induction sizes with
  | nil => rfl
  | cons size sizes ih => exact (Nat.zero_add _).trans ih

theorem sides_sum (f : Bool → Nat) (side : Bool) : f false + f true = f side + f (!side) := by
  cases side with
  | false => rfl
  | true => exact Nat.add_comm _ _

theorem countP_lt {Item : Type} {items : List Item} {p q : Item → Bool} {item : Item}
    (hmem : item ∈ items) (hmore : ∀ other ∈ items, p other = true → q other = true)
    (hq : q item = true) (hp : p item = false) : items.countP p < items.countP q := by
  induction items with
  | nil => cases hmem
  | cons head rest ih =>
    rw [countP_cons, countP_cons]
    have hle : rest.countP p ≤ rest.countP q :=
      countP_mono_left fun other h => hmore other (mem_cons_of_mem head h)
    rcases mem_cons.mp hmem with rfl | hrest
    · rw [hq, hp, if_pos rfl, if_neg Bool.false_ne_true]
      omega
    · have hlt := ih hrest fun other h => hmore other (mem_cons_of_mem head h)
      have hhead := hmore head mem_cons_self
      by_cases hphead : p head = true
      · rw [if_pos hphead, if_pos (hhead hphead)]
        omega
      · rw [if_neg hphead]
        omega

theorem allowed_of_not_mutual (hmutual : ¬ Mutual command.code)
    (hallowed : command.code ∈ command.kind.allowed) :
    command.code ∉ command.kind.other.allowed := fun h =>
  hmutual ((mutual_iff command.kind command.code).mpr ⟨hallowed, h⟩)

/-- What a command weighs is more than its answer does, but for a latch that turns on. -/
theorem answer_lighter {register : Kind → UInt8 → Bool}
    (hanswers : Answers register command register' replies)
    (hallowed : register command.kind command.code = true → command.code ∈ command.kind.allowed) :
    weights replies + 1 ≤ weight (.command command) ∨
      Mutual command.code ∧ register command.kind command.code = (!command.on) ∧
        register' command.kind command.code = command.on ∧
        weights replies ≤ weight (.command command) := by
  cases hanswers with
  | refused hon hcode =>
    have hmutual : ¬ Mutual command.code := fun h =>
      hcode ((mutual_iff command.kind command.code).mp h).1
    have hreply : weights [.command ⟨command.kind.other, false, command.code⟩] =
        if command.code ∈ command.kind.other.allowed then 2 else 1 := by
      rw [weights, map_singleton, sum_singleton, weight]
      dsimp only
      rw [if_neg hmutual, if_neg Bool.false_ne_true]
    refine .inl ?_
    rw [hreply, weight]
    rw [if_neg hmutual, if_pos hon, if_neg hcode]
    split
    · exact Nat.le_refl 3
    · exact Nat.le_refl 2
  | same _ =>
    refine .inl ?_
    rw [weight]
    split_ifs <;> decide
  | @changed sizes hchanged hcode _ =>
    have hsizes : weights (.command ⟨command.kind.other, command.on, command.code⟩ ::
        sizes.map .size) = weight (.command ⟨command.kind.other, command.on, command.code⟩) := by
      have hzero := weights_sizes sizes
      rw [weights] at hzero ⊢
      rw [map_cons, sum_cons, hzero, Nat.add_zero]
    rw [hsizes]
    by_cases hmutual : Mutual command.code
    · refine .inr ⟨hmutual, hchanged, setRegister_self _ _ _ _, Nat.le_of_eq ?_⟩
      rw [weight, weight, if_pos hmutual, if_pos hmutual]
    · refine .inl (Nat.le_of_eq ?_)
      cases hon : command.on with
      | true =>
        have hhere := hcode hon
        have hfirst : weight (.command command) = 4 := by
          rw [weight, if_neg hmutual, if_pos hon, if_pos hhere]
        have hanswer : weight (.command ⟨command.kind.other, true, command.code⟩) = 3 := by
          rw [weight]
          dsimp only
          rw [if_neg hmutual, if_pos rfl, if_neg (allowed_of_not_mutual hmutual hhere),
            Kind.other_other, if_pos hhere]
        rw [hfirst, hanswer]
      | false =>
        rw [hon, Bool.not_false] at hchanged
        have hhere := hallowed hchanged
        have hfirst : weight (.command command) = 2 := by
          rw [weight, if_neg hmutual, hon, if_neg Bool.false_ne_true, if_pos hhere]
        have hanswer : weight (.command ⟨command.kind.other, false, command.code⟩) = 1 := by
          rw [weight]
          dsimp only
          rw [if_neg hmutual, if_neg Bool.false_ne_true,
            if_neg (allowed_of_not_mutual hmutual hhere)]
        rw [hfirst, hanswer]

theorem load_size {view : View} {side : Bool} {size : TermSize}
    (htokens : view.tokens side = .size size :: later) :
    load { view with tokens := Function.update view.tokens side later } = load view := by
  have hboth := sides_sum (fun s => weights (Function.update view.tokens side later s)) side
  have hold := sides_sum (fun s => weights (view.tokens s)) side
  rw [Function.update_self, Function.update_of_ne (Bool.not_ne_self side)] at hboth
  have hsame : weights (.size size :: later) = weights later := Nat.zero_add _
  rw [htokens, hsame] at hold
  rw [load, load]
  dsimp only
  rw [hboth, hold]

theorem load_hears {view : View} {side : Bool} {register : Kind → UInt8 → Bool}
    (hallowed : Allowed view) (hrisen : Risen view)
    (htokens : view.tokens side = .command command :: later)
    (hanswers : Answers (view.register side) command register replies) :
    load
        { on := fun pos => if pos.side = side then register pos.kind pos.code else view.on pos
          tokens := Function.update (Function.update view.tokens side later) (!side)
            (view.tokens (!side) ++ replies) } + 1 ≤ load view := by
  have hcross : (!side) ≠ side := Bool.not_ne_self side
  have hboth := sides_sum (fun s => weights (Function.update
    (Function.update view.tokens side later) (!side) (view.tokens (!side) ++ replies) s)) side
  have hold := sides_sum (fun s => weights (view.tokens s)) side
  rw [Function.update_of_ne hcross.symm, Function.update_self, Function.update_self,
    weights_append] at hboth
  have hfirst : weights (.command command :: later) =
      weight (.command command) + weights later := sum_cons
  rw [htokens, hfirst] at hold
  rw [load, load]
  dsimp only
  rw [hboth, hold]
  have hstays : ∀ pos : Position, pos ≠ ⟨side, command.kind, command.code⟩ →
      (if pos.side = side then register pos.kind pos.code else view.on pos) = view.on pos := by
    rintro ⟨side', kind, code⟩ hne
    dsimp only
    split
    next hside =>
      obtain rfl : side' = side := hside
      exact register_replies hanswers fun h => hne (by rw [h.1, h.2])
    next => rfl
  rcases answer_lighter hanswers (hallowed ⟨side, command.kind, command.code⟩) with
    hless | ⟨hmutual, hbefore, hafter, hle⟩
  · have hoffs : mutualPositions.countP (fun pos =>
        !(if pos.side = side then register pos.kind pos.code else view.on pos)) ≤
        mutualPositions.countP (fun pos => !view.on pos) := by
      refine countP_mono_left fun pos hmem hoff => ?_
      by_cases hpos : pos = ⟨side, command.kind, command.code⟩
      · -- A latch that changes is the other case.
        subst hpos
        have hmutual := mem_mutualPositions.mp hmem
        cases hanswers with
        | refused _ hcode =>
          exact absurd ((mutual_iff command.kind command.code).mp hmutual).1 hcode
        | same _ => rwa [if_pos rfl] at hoff
        | @changed sizes hchanged _ _ =>
          have hrise := hrisen ⟨side, command.kind, command.code⟩ hmutual
          have hbits : view.bits ⟨side, command.kind, command.code⟩ =
              command.on :: bitsOf command.kind command.code later := by
            rw [View.bits, htokens, bitsOf_command]
          have hon : view.on ⟨side, command.kind, command.code⟩ = !command.on := hchanged
          rw [hbits, hon] at hrise
          rw [hon, (rises_changed hrise).1]
          rfl
      · rwa [hstays pos hpos] at hoff
    omega
  · have hrise := hrisen ⟨side, command.kind, command.code⟩ hmutual
    have hbits : view.bits ⟨side, command.kind, command.code⟩ =
        command.on :: bitsOf command.kind command.code later := by
      rw [View.bits, htokens, bitsOf_command]
    have hon : view.on ⟨side, command.kind, command.code⟩ = !command.on := hbefore
    rw [hbits, hon] at hrise
    have htrue := (rises_changed hrise).1
    have hoffs : mutualPositions.countP (fun pos =>
        !(if pos.side = side then register pos.kind pos.code else view.on pos)) <
        mutualPositions.countP (fun pos => !view.on pos) := by
      have hmem : ⟨side, command.kind, command.code⟩ ∈ mutualPositions :=
        mem_mutualPositions.mpr hmutual
      refine countP_lt hmem (fun pos _ hoff => ?_) ?_ ?_
      · by_cases hpos : pos = ⟨side, command.kind, command.code⟩
        · rw [hpos, hon, htrue]
          rfl
        · rwa [hstays pos hpos] at hoff
      · rw [hon, htrue]
        rfl
      · rw [if_pos rfl, hafter, htrue]
        rfl
    omega

/-- Both ends have the options of the view, and its tokens on the way. -/
def Shows (net : Net) (view : View) : Prop :=
  ∀ side, (net.party side).register = view.register side ∧
    Reads (net.party side) (net.inbox side) (view.tokens side)

/-- Some bytes reach one end. -/
def Net.deliver (net : Net) (side : Bool) (front rest : List UInt8) : Net :=
  { party := Function.update net.party side ((net.party side).receive front).1
    inbox := Function.update (Function.update net.inbox side rest) (!side)
      (net.inbox (!side) ++ ((net.party side).receive front).2.reply) }

def Net.bytes (net : Net) : Nat := (net.inbox false).length + (net.inbox true).length

theorem Reads.append {tokens : List Token} (h : Reads nvt inbox tokens) (replies : List Token) :
    Reads nvt (inbox ++ encodeAll replies) (tokens ++ replies) := by
  cases h with
  | between tokens hstate =>
    rw [← encodeAll_append]
    exact .between _ hstate
  | afterIac command tokens hstate =>
    rw [cons_append, cons_append, cons_append, ← encodeAll_append]
    exact .afterIac command _ hstate
  | afterVerb command tokens hstate =>
    rw [cons_append, cons_append, ← encodeAll_append]
    exact .afterVerb command _ hstate
  | sizeIac size tokens htail hstate =>
    rw [cons_append, cons_append, cons_append, List.append_assoc, ← encodeAll_append]
    exact .sizeIac size _ htail hstate
  | sizeStart size tokens htail hstate hsub =>
    rw [cons_append, cons_append, List.append_assoc, ← encodeAll_append]
    exact .sizeStart size _ htail hstate hsub
  | sizeBody size tokens htail hsub =>
    rw [cons_append, List.append_assoc, ← encodeAll_append]
    exact .sizeBody size _ htail hsub

theorem length_window (size : TermSize) : (Token.size size).bytes.length ≤ 13 := by
  have hdoubled : ∀ bytes : List UInt8, (bytes.flatMap fun byte =>
      if byte = IAC then [byte, IAC] else [byte]).length ≤ 2 * bytes.length := by
    intro bytes
    induction bytes with
    | nil => exact Nat.le_refl 0
    | cons byte bytes ih =>
      rw [flatMap_cons, length_append, length_cons]
      split
      · rw [length_cons, length_singleton]
        omega
      · rw [length_singleton]
        omega
  have hfour := hdoubled (beBytes size.columns ++ beBytes size.lines)
  have hlength : (beBytes size.columns ++ beBytes size.lines).length = 4 := rfl
  rw [Token.bytes, Nvt.windowSize, length_append, length_append]
  change 3 + _ + 2 ≤ 13
  change List.length (List.flatMap _ (beBytes size.columns ++ beBytes size.lines)) ≤ _ at hfour
  have hsame : (Nvt.new [] size).size = size := rfl
  rw [hsame]
  omega

theorem length_answer {register : Kind → UInt8 → Bool}
    (hanswers : Answers register command register' replies) : (encodeAll replies).length ≤ 16 := by
  cases hanswers with
  | refused _ _ =>
    change 3 ≤ 16
    decide
  | same _ => exact Nat.zero_le 16
  | @changed sizes _ _ hsizes =>
    match sizes, hsizes with
    | [], _ =>
      change 3 ≤ 16
      decide
    | [size], _ =>
      have hwindow := length_window size
      have hall : encodeAll (.command ⟨command.kind.other, command.on, command.code⟩ ::
          [size].map .size) =
          (Command.mk command.kind.other command.on command.code).bytes ++
            (Token.size size).bytes := by
        rw [encodeAll, flatMap_cons]
        exact congrArg _ (List.append_nil _)
      have hthree : (Command.mk command.kind.other command.on command.code).bytes.length = 3 := rfl
      rw [hall, length_append, hthree]
      omega

theorem shows_update {view : View} (hshows : Shows net view) (side : Bool) (replies : List Token)
    (hreads : Reads nvt inbox later) :
    ∀ s, Reads (Function.update net.party side nvt s)
      (Function.update (Function.update net.inbox side inbox) (!side)
        (net.inbox (!side) ++ encodeAll replies) s)
      (Function.update (Function.update view.tokens side later) (!side)
        (view.tokens (!side) ++ replies) s) := by
  intro s
  have hcross : (!side) ≠ side := Bool.not_ne_self side
  by_cases hs : s = side
  · subst hs
    rw [Function.update_self, Function.update_of_ne hcross.symm, Function.update_self,
      Function.update_of_ne hcross.symm, Function.update_self]
    exact hreads
  · obtain rfl : s = !side := by
      cases s <;> cases side <;> first | rfl | exact absurd rfl hs
    rw [Function.update_of_ne hcross, Function.update_self, Function.update_self]
    exact (hshows (!side)).2.append replies

theorem shows_byte {view : View} (hshows : Shows net view) {side : Bool} {rest : List UInt8}
    (hinbox : net.inbox side = byte :: rest) :
    ∃ view', Shows (net.deliver side [byte] rest) view' ∧
      (view' = view ∧ (net.deliver side [byte] rest).bytes < net.bytes ∨
        Hears view view' ∧
          ((Allowed view → Risen view → load view' + 1 ≤ load view ∧
              (net.deliver side [byte] rest).bytes < net.bytes + 16) ∨
            load view' = load view ∧ (net.deliver side [byte] rest).bytes < net.bytes)) := by
  have hcross : (!side) ≠ side := Bool.not_ne_self side
  obtain ⟨hregister, hreads⟩ := hshows side
  rw [hinbox] at hreads
  have hheard := heard_byte hreads
  generalize hreceived : (net.party side).receiveByte byte = received at hheard
  have hdeliver : net.deliver side [byte] rest =
      { party := Function.update net.party side received.1
        inbox := Function.update (Function.update net.inbox side rest) (!side)
          (net.inbox (!side) ++ received.2.reply) } := by
    rw [Net.deliver, Nvt.receive, hreceived, Nvt.receive, Received.append]
    dsimp only
    rw [List.append_nil]
  have hbytes : (net.deliver side [byte] rest).bytes + 1 = net.bytes + received.2.reply.length := by
    have hboth := sides_sum (fun s => ((net.deliver side [byte] rest).inbox s).length) side
    have hold := sides_sum (fun s => (net.inbox s).length) side
    rw [hinbox, length_cons] at hold
    have hhere : (net.deliver side [byte] rest).inbox side = rest := by
      rw [hdeliver]
      dsimp only
      rw [Function.update_of_ne hcross.symm, Function.update_self]
    have hthere : (net.deliver side [byte] rest).inbox (!side) =
        net.inbox (!side) ++ received.2.reply := by
      rw [hdeliver]
      dsimp only
      rw [Function.update_self]
    rw [hhere, hthere, length_append] at hboth
    rw [Net.bytes, Net.bytes, hboth, hold]
    omega
  have hparties : ∀ register : Bool → Kind → UInt8 → Bool,
      received.1.register = register side → (∀ s, s ≠ side → register s = view.register s) →
      ∀ s, (Function.update net.party side received.1 s).register = register s := by
    intro register hnew hothers s
    by_cases hs : s = side
    · subst hs
      rw [Function.update_self, hnew]
    · rw [Function.update_of_ne hs, hothers s hs]
      exact (hshows s).1
  have hnone : Function.update (Function.update view.tokens side (view.tokens side)) (!side)
      (view.tokens (!side) ++ []) = view.tokens := by
    rw [Function.update_eq_self, List.append_nil, Function.update_eq_self]
  cases hheard with
  | @part nvt' data hreads' hregister' =>
    refine ⟨view, fun s => ⟨?_, ?_⟩, .inl ⟨rfl, ?_⟩⟩
    · rw [hdeliver]
      exact hparties view.register (hregister'.trans hregister) (fun _ _ => rfl) s
    · have h := shows_update hshows side [] hreads' s
      rw [hnone] at h
      rw [hdeliver]
      exact h
    · have hzero : ([] : List UInt8).length = 0 := rfl
      rw [hzero] at hbytes
      omega
  | @size nvt' data size later htokens hreads' hregister' =>
    refine ⟨_, fun s => ⟨?_, ?_⟩, .inr ⟨.size side htokens, .inr ⟨load_size htokens, ?_⟩⟩⟩
    · rw [hdeliver]
      exact hparties view.register (hregister'.trans hregister) (fun _ _ => rfl) s
    · have h := shows_update hshows side [] hreads' s
      rw [hdeliver]
      rw [List.append_nil] at h
      have hsame : Function.update (Function.update view.tokens side later) (!side)
          (view.tokens (!side)) = Function.update view.tokens side later := by
        rw [Function.update_comm hcross.symm, Function.update_eq_self]
      rw [hsame] at h
      exact h
    · have hzero : ([] : List UInt8).length = 0 := rfl
      rw [hzero] at hbytes
      omega
  | @command nvt' data command later replies htokens hreads' hanswers =>
    rw [hregister] at hanswers
    refine ⟨_, fun s => ⟨?_, ?_⟩, .inr ⟨.command side htokens hanswers, .inl fun hallowed hrisen =>
      ⟨load_hears hallowed hrisen htokens hanswers, ?_⟩⟩⟩
    · rw [hdeliver]
      refine hparties _ ?_ (fun s' hs' => ?_) s
      · funext kind code
        exact (if_pos rfl).symm
      · funext kind code
        exact if_neg hs'
    · rw [hdeliver]
      exact shows_update hshows side replies hreads' s
    · have hanswer := length_answer hanswers
      dsimp only at hbytes
      omega

/-- What holds along every run from a start without taken back offers. -/
structure Calm (net : Net) (view : View) : Prop where
  shows : Shows net view
  allowed : Allowed view
  known : Known view
  risen : Risen view

/-- How many more deliveries there can be. -/
def charge (net : Net) (view : View) : Nat := 20 * load view + net.bytes

theorem calm_byte {view : View} (h : Calm net view) {side : Bool} {rest : List UInt8}
    (hinbox : net.inbox side = byte :: rest) :
    ∃ view', Calm (net.deliver side [byte] rest) view' ∧
      charge (net.deliver side [byte] rest) view' < charge net view := by
  obtain ⟨view', hshows, hcases⟩ := shows_byte h.shows hinbox
  rcases hcases with ⟨rfl, hbytes⟩ | ⟨hhears, hcases⟩
  · exact ⟨view', ⟨hshows, h.allowed, h.known, h.risen⟩, Nat.add_lt_add_left hbytes _⟩
  · refine ⟨view', ⟨hshows, allowed_hears hhears h.allowed, known_hears hhears h.known,
      risen_hears hhears h.risen⟩, ?_⟩
    rw [charge, charge]
    rcases hcases with hanswer | ⟨hload, hbytes⟩
    · obtain ⟨hload, hbytes⟩ := hanswer h.allowed h.risen
      omega
    · omega

theorem deliver_cons (net : Net) (side : Bool) (byte : UInt8) (front rest : List UInt8) :
    net.deliver side (byte :: front) rest =
      (net.deliver side [byte] (front ++ rest)).deliver side front rest := by
  have hcross : (!side) ≠ side := Bool.not_ne_self side
  have hone : (net.party side).receive [byte] = (((net.party side).receiveByte byte).1,
      ((net.party side).receiveByte byte).2.append {}) := rfl
  rw [Net.deliver, Net.deliver, Net.deliver, hone]
  dsimp only
  rw [Nvt.receive, Function.update_self, Function.update_self, Received.append, Received.append]
  dsimp only
  rw [Function.update_idem, List.append_nil, List.append_assoc]
  have hinbox : ∀ first second third fourth : List UInt8,
      Function.update (Function.update (Function.update (Function.update net.inbox side first)
        (!side) second) side third) (!side) fourth =
        Function.update (Function.update net.inbox side third) (!side) fourth := by
    intro first second third fourth
    rw [Function.update_comm hcross, Function.update_idem, Function.update_idem]
  rw [hinbox]

theorem calm_deliver {view : View} (h : Calm net view) {side : Bool} {front rest : List UInt8}
    (hsome : front ≠ []) (hinbox : net.inbox side = front ++ rest) :
    ∃ view', Calm (net.deliver side front rest) view' ∧
      charge (net.deliver side front rest) view' < charge net view := by
  induction front generalizing net view with
  | nil => exact absurd rfl hsome
  | cons byte front ih =>
    obtain ⟨middle, hcalm, hless⟩ := calm_byte h hinbox
    cases front with
    | nil => exact ⟨middle, hcalm, hless⟩
    | cons next front =>
      have hcross : (!side) ≠ side := Bool.not_ne_self side
      have hrest : (net.deliver side [byte] (next :: front ++ rest)).inbox side =
          next :: front ++ rest := by
        rw [Net.deliver]
        dsimp only
        rw [Function.update_of_ne hcross.symm, Function.update_self]
      obtain ⟨view', hcalm', hless'⟩ := ih hcalm (cons_ne_nil _ _) hrest
      rw [deliver_cons]
      exact ⟨view', hcalm', Nat.lt_trans hless' hless⟩

theorem calm_delivers {net net' : Net} {view : View} (h : Calm net view)
    (hdelivers : Delivers net net') :
    ∃ view', Calm net' view' ∧ charge net' view' < charge net view := by
  cases hdelivers with
  | deliver side hsome hinbox => exact calm_deliver h hsome hinbox

theorem calm_run {count : Nat} {last : Net} {view : View} (h : Calm net view)
    (hrun : Run count net last) :
    ∃ view', Calm last view' ∧ charge last view' + count ≤ charge net view := by
  induction hrun with
  | none net => exact ⟨view, h, Nat.le_refl _⟩
  | more _ hdelivers ih =>
    obtain ⟨middle, hcalm, hle⟩ := ih h
    obtain ⟨view', hcalm', hless⟩ := calm_delivers hcalm hdelivers
    exact ⟨view', hcalm', by omega⟩

theorem run_of_states {states : Nat → Net} (hstates : ∀ n, Delivers (states n) (states (n + 1))) :
    ∀ n, Run n (states 0) (states n) := by
  intro n
  induction n with
  | zero => exact .none _
  | succ n ih => exact .more ih (hstates n)

theorem agrees_of_empty {view : View} (h : Calm net view) (hempty : ∀ side, net.inbox side = []) :
    Agrees net := by
  have htokens : ∀ side, view.tokens side = [] := by
    intro side
    cases htokens : view.tokens side with
    | nil => rfl
    | cons token later =>
      have hreads := (h.shows side).2
      rw [htokens] at hreads
      exact absurd (hempty side) (reads_some hreads)
  have hon : ∀ pos, view.on pos = true → view.on pos.other = true := by
    intro pos hpos
    have hbits : ∀ pos, view.bits pos = [] := by
      intro pos
      rw [View.bits, htokens]
      rfl
    rcases h.known pos hpos with hother | hother | hother
    · exact hother
    · rw [hbits] at hother
      cases hother
    · rw [hbits] at hother
      cases hother
  intro side code
  have hours : (net.party side).ours code = view.on ⟨side, .ours, code⟩ :=
    congrFun (congrFun (h.shows side).1 .ours) code
  have htheirs : (net.party (!side)).theirs code = view.on ⟨!side, .theirs, code⟩ :=
    congrFun (congrFun (h.shows (!side)).1 .theirs) code
  rw [hours, htheirs, Bool.eq_iff_iff]
  constructor
  · exact hon ⟨side, .ours, code⟩
  · intro hpos
    have hback := hon ⟨!side, .theirs, code⟩ hpos
    rwa [Position.other, Bool.not_not] at hback

/-- The view of a start. -/
def startView (sent : Bool → List Command) : View :=
  { on := fun _ => false, tokens := fun side => (sent side).map .command }

theorem shows_start (term : Bool → List UInt8) (size : Bool → TermSize)
    (sent : Bool → List Command) : Shows (start term size sent) (startView sent) := by
  intro side
  refine ⟨?_, ?_⟩
  · funext kind code
    cases kind <;> rfl
  · have hbytes : (sent side).flatMap Command.bytes = encodeAll ((sent side).map .command) := by
      rw [encodeAll, flatMap_map]
      rfl
    have hinbox : (start term size sent).inbox side = _ := hbytes
    rw [hinbox]
    exact .between _ rfl

theorem bitsOf_split {kind : Kind} {code : UInt8} {commands : List Command} {bit : Bool}
    {front back : List Bool} (h : bitsOf kind code (commands.map .command) = front ++ bit :: back) :
    ∃ before after, commands = before ++ ⟨kind, bit, code⟩ :: after ∧
      bitsOf kind code (before.map .command) = front := by
  induction commands generalizing front with
  | nil => exact absurd h.symm (by simp [bitsOf])
  | cons command rest ih =>
    rw [map_cons] at h
    by_cases habout : command.kind = kind ∧ command.code = code
    · obtain ⟨rfl, rfl⟩ := habout
      rw [bitsOf_command] at h
      cases front with
      | nil =>
        obtain ⟨rfl, -⟩ := List.cons.inj h
        exact ⟨[], rest, rfl, rfl⟩
      | cons first front =>
        obtain ⟨rfl, hrest⟩ := List.cons.inj h
        obtain ⟨before, after, rfl, rfl⟩ := ih hrest
        exact ⟨command :: before, after, rfl, bitsOf_command command _⟩
    · rw [bitsOf_other habout] at h
      obtain ⟨before, after, rfl, rfl⟩ := ih h
      exact ⟨command :: before, after, rfl, bitsOf_other habout _⟩

theorem two_le_turns_start_iff (sent : Bool → List Command) (pos : Position) :
    2 ≤ turns false ((startView sent).bits pos) ↔
      ∃ before between after, sent pos.side =
        before ++ ⟨pos.kind, true, pos.code⟩ :: between ++ ⟨pos.kind, false, pos.code⟩ :: after := by
  have hview : (startView sent).bits pos =
      bitsOf pos.kind pos.code ((sent pos.side).map .command) := rfl
  rw [two_le_turns_iff, hview]
  constructor
  · rintro ⟨before, between, after, hbits⟩
    obtain ⟨front, last, hsent, hfront⟩ := bitsOf_split hbits
    obtain ⟨first, middle, rfl, -⟩ := bitsOf_split hfront
    exact ⟨first, middle, last, hsent⟩
  · rintro ⟨before, between, after, hsent⟩
    have hon := bitsOf_command ⟨pos.kind, true, pos.code⟩ (between.map .command)
    have hoff := bitsOf_command ⟨pos.kind, false, pos.code⟩ (after.map .command)
    dsimp only at hon hoff
    rw [hsent, map_append, map_append, map_cons, map_cons, bitsOf_append, bitsOf_append, hon, hoff]
    exact ⟨_, _, _, rfl⟩

theorem steady_iff (sent : Bool → List Command) : (∀ side, Steady (sent side)) ↔
    ∀ pos : Position, Mutual pos.code → turns false ((startView sent).bits pos) ≤ 1 := by
  constructor
  · intro hsteady pos hmutual
    by_contra h
    obtain ⟨before, between, after, hsent⟩ :=
      (two_le_turns_start_iff sent pos).mp (Nat.lt_of_not_le h)
    exact hsteady pos.side before pos.kind pos.code between after hmutual hsent
  · intro h side before kind code between after hmutual hsent
    have htwo := (two_le_turns_start_iff sent ⟨side, kind, code⟩).mpr
      ⟨before, between, after, hsent⟩
    have hone := h ⟨side, kind, code⟩ hmutual
    omega

theorem calm_start (term : Bool → List UInt8) (size : Bool → TermSize)
    {sent : Bool → List Command} (hsteady : ∀ side, Steady (sent side)) :
    Calm (start term size sent) (startView sent) := by
  refine ⟨shows_start term size sent, fun _ h => Bool.noConfusion h,
    fun _ h => Bool.noConfusion h, fun pos hmutual => ?_⟩
  exact (steady_iff sent).mp hsteady pos hmutual

theorem weights_commands (commands : List Command) :
    weights (commands.map .command) ≤ 4 * commands.length := by
  induction commands with
  | nil => exact Nat.le_refl 0
  | cons command commands ih =>
    have hweight : weight (.command command) ≤ 4 := by
      rw [weight]
      split_ifs <;> decide
    have hcons : weights ((command :: commands).map .command) =
        weight (.command command) + weights (commands.map .command) := sum_cons
    rw [hcons, length_cons]
    omega

/-- How long a steady negotiation can take, for so many commands on the way. -/
theorem charge_start (term : Bool → List UInt8) (size : Bool → TermSize)
    (sent : Bool → List Command) :
    charge (start term size sent) (startView sent) ≤
      83 * ((sent false).length + (sent true).length) + 160 := by
  have hbytes : ∀ commands : List Command,
      (commands.flatMap Command.bytes).length = 3 * commands.length := by
    intro commands
    induction commands with
    | nil => rfl
    | cons command commands ih =>
      rw [flatMap_cons, length_append, ih, length_cons]
      have hthree : command.bytes.length = 3 := rfl
      omega
  have hfirst := weights_commands (sent false)
  have hsecond := weights_commands (sent true)
  have hoffs := countP_le_length (p := fun pos => !(startView sent).on pos) (l := mutualPositions)
  have height : mutualPositions.length = 8 := rfl
  have hload : load (startView sent) = weights ((sent false).map .command) +
      weights ((sent true).map .command) +
      mutualPositions.countP fun pos => !(startView sent).on pos := rfl
  have hnet : (start term size sent).bytes =
      ((sent false).flatMap Command.bytes).length +
        ((sent true).flatMap Command.bytes).length := rfl
  rw [charge, hload, hnet, hbytes, hbytes]
  omega

/-- Two latches with turns to spare. -/
structure Spins (pos : Position) (net : Net) (view : View) : Prop where
  shows : Shows net view
  excess : 0 < (view.latches pos).excess

theorem some_of_bits {view : View} (hshows : Shows net view) (hbits : view.bits pos ≠ []) :
    net.inbox pos.side ≠ [] := by
  cases htokens : view.tokens pos.side with
  | nil => exact absurd (by rw [View.bits, htokens]; rfl) hbits
  | cons token later =>
    have hreads := (hshows pos.side).2
    rw [htokens] at hreads
    exact reads_some hreads

/-- With turns to spare there is always another delivery. -/
theorem spins_delivers (hmutual : Mutual pos.code) {view : View} (h : Spins pos net view) :
    ∃ net', Delivers net net' ∧ ∃ view', Spins pos net' view' := by
  have hsome : ∃ side, net.inbox side ≠ [] := by
    rcases Latches.some_of_excess h.excess with hbits | hbits
    · exact ⟨pos.side, some_of_bits h.shows hbits⟩
    · exact ⟨pos.other.side, some_of_bits h.shows hbits⟩
  obtain ⟨side, hinbox⟩ := hsome
  obtain ⟨byte, rest, hinbox⟩ := exists_cons_of_ne_nil hinbox
  obtain ⟨view', hshows, hcases⟩ := shows_byte h.shows hinbox
  refine ⟨net.deliver side [byte] rest, .deliver side (cons_ne_nil _ _) hinbox, view', hshows, ?_⟩
  rcases hcases with ⟨rfl, _⟩ | ⟨hhears, _⟩
  · exact h.excess
  · rcases latches_hears hhears hmutual with hsame | hstep
    · rw [hsame]
      exact h.excess
    · rw [Latches.excess_step hstep]
      exact h.excess

theorem spins_forever {pos : Position} (hmutual : Mutual pos.code) {net : Net} {view : View}
    (h : Spins pos net view) :
    ∃ states : Nat → Net, states 0 = net ∧ ∀ n, Delivers (states n) (states (n + 1)) := by
  have hnext : ∀ net : { net : Net // ∃ view, Spins pos net view },
      ∃ net' : { net : Net // ∃ view, Spins pos net view }, Delivers net.1 net'.1 := by
    rintro ⟨net, view, hspins⟩
    obtain ⟨net', hdelivers, hspins'⟩ := spins_delivers hmutual hspins
    exact ⟨⟨net', hspins'⟩, hdelivers⟩
  choose next hdelivers using hnext
  refine ⟨fun n => (next^[n] ⟨net, view, h⟩).1, rfl, fun n => ?_⟩
  dsimp only
  rw [Function.iterate_succ_apply']
  exact hdelivers _

/-- Negotiation ends, with both ends knowing the same options, exactly when no offer of an
option both ends turn on is taken back on the way; then it ends within so many deliveries. -/
theorem settles_iff (term : Bool → List UInt8) (size : Bool → TermSize)
    (sent : Bool → List Command) :
    (Settles (start term size sent) ↔ ∀ side, Steady (sent side)) ∧
      ((∀ side, Steady (sent side)) → ∀ count last, Run count (start term size sent) last →
        count ≤ 83 * ((sent false).length + (sent true).length) + 160) := by
  have hbound : (∀ side, Steady (sent side)) → ∀ count last,
      Run count (start term size sent) last →
        count ≤ 83 * ((sent false).length + (sent true).length) + 160 := by
    intro hsteady count last hrun
    obtain ⟨view, _, hcharge⟩ := calm_run (calm_start term size hsteady) hrun
    have hstart := charge_start term size sent
    omega
  refine ⟨⟨fun hsettles => (steady_iff sent).mpr fun pos hmutual => ?_, fun hsteady =>
    ⟨?_, ?_⟩⟩, hbound⟩
  · by_contra hturns
    have htwo : 2 ≤ turns false ((startView sent).bits pos) := Nat.lt_of_not_le hturns
    exact hsettles.ends (spins_forever hmutual ⟨shows_start term size sent,
      Latches.excess_start _ htwo⟩)
  · rintro ⟨states, hstart, hstates⟩
    have hrun := run_of_states hstates (83 * ((sent false).length + (sent true).length) + 161)
    rw [hstart] at hrun
    have hle := hbound hsteady _ _ hrun
    omega
  · intro count last hrun hempty
    obtain ⟨view, hcalm, _⟩ := calm_run (calm_start term size hsteady) hrun
    exact agrees_of_empty hcalm hempty

namespace TelnetWitness

def xterm : Bool → List UInt8 := fun _ => [0x78, 0x74, 0x65, 0x72, 0x6D]

def screen : Bool → TermSize := fun _ => ⟨80, 24⟩

/-- One end offers to suppress go-ahead and asks the other to. -/
def handshake (side : Bool) : List Command :=
  if side then [⟨.theirs, true, SGA⟩, ⟨.ours, true, SGA⟩] else []

theorem handshake_settles : Settles (start xterm screen handshake) := by
  refine (settles_iff xterm screen handshake).1.mpr fun side before kind code between after _ h => ?_
  have hmem : ⟨kind, false, code⟩ ∈ handshake side := by
    rw [h]
    exact List.mem_append_right _ List.mem_cons_self
  cases side with
  | false => exact absurd hmem List.not_mem_nil
  | true => simp [handshake] at hmem

/-- WILL and WONT of the same option, on their way to a new connection. -/
def takenBack (side : Bool) : List Command :=
  if side then [⟨.theirs, true, SGA⟩, ⟨.theirs, false, SGA⟩] else []

/-- The two ends answer each other without end. -/
theorem taken_back_never_ends : ¬ Settles (start xterm screen takenBack) := by
  intro hsettles
  have hmutual : Mutual SGA := ⟨by decide, by decide⟩
  have hexcess : 0 < ((startView takenBack).latches ⟨true, .theirs, SGA⟩).excess := by decide
  exact hsettles.ends (@spins_forever ⟨true, .theirs, SGA⟩ hmutual _ _
    ⟨shows_start xterm screen takenBack, hexcess⟩)

end TelnetWitness

end Opensesh.Telnet
