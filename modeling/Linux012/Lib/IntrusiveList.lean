import Mathlib.Data.List.Chain
import Mathlib.Data.List.Nodup

/-! Doubly linked lists whose links are stored in the nodes themselves: a
circular list given by total link functions, and a chain that ends in an absent
link. An edit is a `update` of the two link functions. -/

set_option autoImplicit false

namespace IntrusiveList

open Function List

variable {α : Type} [DecidableEq α]

/-! ## Circular lists -/

section Ring

def Adjacent (next prev : α → α) (x y : α) : Prop := next x = y ∧ prev y = x

def Ring (next prev : α → α) : List α → Prop
  | [] => True
  | x :: rest => List.IsChain (Adjacent next prev) (x :: (rest ++ [x]))

variable {next prev : α → α}

variable {x : α}

omit [DecidableEq α] in
theorem Ring.singleton : Ring next prev [x] ↔ next x = x ∧ prev x = x := by
  simp [Ring, Adjacent]

variable {rest : List α}

omit [DecidableEq α] in
theorem Ring.rotate (ring : Ring next prev (x :: rest)) : Ring next prev (rest ++ [x]) := by
  cases rest with
  | nil => exact ring
  | cons y rest =>
    have first : Adjacent next prev x y := by
      simp only [Ring, cons_append, isChain_cons_cons] at ring
      exact ring.1
    have others : List.IsChain (Adjacent next prev) (y :: (rest ++ [x])) := by
      simp only [Ring, cons_append, isChain_cons_cons] at ring
      exact ring.2
    have closed : List.IsChain (Adjacent next prev) ((y :: (rest ++ [x])) ++ [y]) := by
      rw [isChain_append]
      refine ⟨others, .singleton _, ?_⟩
      intro last isLast head isHead
      have lastEq : last = x := by
        have : (y :: (rest ++ [x])).getLast? = some x := by
          rw [← cons_append, getLast?_append]
          rfl
        rw [this] at isLast
        exact (Option.mem_some_iff.mp isLast).symm
      have headEq : head = y := (Option.mem_some_iff.mp isHead).symm
      rw [lastEq, headEq]
      exact first
    simpa [Ring] using closed

omit [DecidableEq α] in
theorem Ring.rotate_append {front back : List α} (ring : Ring next prev (front ++ back)) :
    Ring next prev (back ++ front) := by
  induction front generalizing back with
  | nil => simpa using ring
  | cons x front ih =>
    have turned : Ring next prev (front ++ (back ++ [x])) := by
      simpa [append_assoc] using ring.rotate
    simpa [append_assoc] using ih turned

omit [DecidableEq α] in
theorem Ring.next_mem {l : List α} (ring : Ring next prev l) (member : x ∈ l) : next x ∈ l := by
  obtain ⟨front, back, rfl⟩ := append_of_mem member
  have turned : Ring next prev (x :: (back ++ front)) := by
    simpa using ring.rotate_append
  cases shape : back ++ front with
  | nil =>
    rw [shape] at turned
    rw [(Ring.singleton.mp turned).1]
    exact member
  | cons y rest =>
    rw [shape] at turned
    simp only [Ring, cons_append, isChain_cons_cons] at turned
    have inside : y ∈ back ++ front := by rw [shape]; exact .head _
    rw [turned.1.1]
    rcases mem_append.mp inside with behind | before
    · exact mem_append_right _ (.tail _ behind)
    · exact mem_append_left _ before

variable {m : List α}

omit [DecidableEq α] in
theorem Ring.edges {z : α} (ring : Ring next prev (x :: (m ++ [z]))) :
    prev x = z ∧ next z = x ∧ List.IsChain (Adjacent next prev) (m ++ [z]) ∧
      ∀ y ∈ (m ++ [z]).head?, next x = y ∧ prev y = x := by
  simp only [Ring, isChain_cons, append_assoc] at ring
  obtain ⟨first, others⟩ := ring
  rw [← append_assoc, isChain_append] at others
  obtain ⟨body, -, seam⟩ := others
  have closing : Adjacent next prev z x := seam z (by simp) x (by simp)
  refine ⟨closing.2, closing.1, body, ?_⟩
  intro y isHead
  refine first y ?_
  rw [← append_assoc, head?_append, isHead]
  rfl

private theorem isChain_update_last {z v : α} (chain : List.IsChain (Adjacent next prev) (m ++ [z]))
    (fresh : z ∉ m) : List.IsChain (Adjacent (update next z v) prev) (m ++ [z]) := by
  induction m with
  | nil => exact .singleton _
  | cons a m ih =>
    have different : a ≠ z := fun same => fresh (same ▸ .head _)
    rw [cons_append, isChain_cons] at chain ⊢
    refine ⟨?_, ih chain.2 fun member => fresh (.tail _ member)⟩
    intro b isHead
    have linked := chain.1 b isHead
    exact ⟨by rw [update_of_ne different]; exact linked.1, linked.2⟩

private theorem isChain_update_head {y v : α} (chain : List.IsChain (Adjacent next prev) (y :: m))
    (fresh : y ∉ m) : List.IsChain (Adjacent next (update prev y v)) (y :: m) := by
  refine chain.imp_of_mem_tail_imp ?_
  intro a b _ memberB linked
  have different : b ≠ y := fun same => fresh (same ▸ memberB)
  exact ⟨linked.1, by rw [update_of_ne different]; exact linked.2⟩

theorem Ring.unlink {y : α} (ring : Ring next prev (x :: y :: rest)) (distinct : (y :: rest).Nodup) :
    Ring (update next (prev x) (next x)) (update prev (next x) (prev x)) (y :: rest) := by
  obtain ⟨m, z, shape⟩ : ∃ m z, y :: rest = m ++ [z] := ⟨_, _, (dropLast_concat_getLast (cons_ne_nil y rest)).symm⟩
  rw [shape] at ring distinct
  obtain ⟨prevX, nextZ, body, entry⟩ := ring.edges
  have nextX : next x = y := (entry y (by rw [← shape]; rfl)).1
  have lastFresh : z ∉ m := by
    have separate := (nodup_append.mp distinct).2.2
    exact fun member => separate z member z (.head _) rfl
  have headFresh : y ∉ rest := by
    rw [← shape] at distinct
    exact (nodup_cons.mp distinct).1
  rw [prevX, nextX]
  have relinked := isChain_update_last (v := y) body lastFresh
  rw [← shape] at relinked
  have closed := isChain_update_head (v := z) relinked headFresh
  simp only [Ring]
  rw [← cons_append, isChain_append]
  refine ⟨closed, .singleton _, ?_⟩
  intro last isLast head isHead
  rw [shape] at isLast
  have lastEq : last = z := by simpa using isLast.symm
  have headEq : head = y := by simpa using isHead.symm
  rw [lastEq, headEq]
  exact ⟨by simp, by simp⟩

theorem Ring.linkLast {h : α} (ring : Ring next prev (h :: rest)) (distinct : (h :: rest).Nodup)
    (fresh : x ∉ h :: rest) :
    Ring (update (update next x h) (prev h) x) (update (update prev x (prev h)) h x) (h :: rest ++ [x]) := by
  obtain ⟨m, z, shape⟩ : ∃ m z, h :: rest = m ++ [z] := ⟨_, _, (dropLast_concat_getLast (cons_ne_nil h rest)).symm⟩
  have body : List.IsChain (Adjacent next prev) (h :: rest) ∧ prev h = z := by
    simp only [Ring] at ring
    rw [← cons_append, isChain_append] at ring
    refine ⟨ring.1, (ring.2.2 z ?_ h (by simp)).2⟩
    rw [shape]
    simp
  have lastFresh : z ∉ m := by
    rw [shape] at distinct
    exact fun member => (nodup_append.mp distinct).2.2 z member z (.head _) rfl
  have headFresh : h ∉ rest := (nodup_cons.mp distinct).1
  have zNotX : z ≠ x := by
    rintro rfl
    exact fresh (by rw [shape]; simp)
  have hNotX : h ≠ x := fun same => fresh (same ▸ .head _)
  have widened : List.IsChain (Adjacent (update next x h) (update prev x z))
      (h :: rest) := by
    refine body.1.imp_of_mem_imp ?_
    intro a b memberA memberB linked
    have aNotX : a ≠ x := fun same => fresh (same ▸ memberA)
    have bNotX : b ≠ x := fun same => fresh (same ▸ memberB)
    exact ⟨by rw [update_of_ne aNotX]; exact linked.1, by rw [update_of_ne bNotX]; exact linked.2⟩
  rw [shape] at widened
  have relinked := isChain_update_last (v := x) widened lastFresh
  rw [← shape] at relinked
  have extended := isChain_update_head (v := x) relinked headFresh
  rw [body.2]
  simp only [Ring, cons_append, append_assoc]
  rw [← cons_append, isChain_append]
  refine ⟨extended, ?_, ?_⟩
  · simp only [nil_append, isChain_cons_cons, isChain_singleton, and_true]
    exact ⟨by rw [update_of_ne zNotX.symm, update_self], by rw [update_self]⟩
  · intro last isLast head isHead
    rw [shape] at isLast
    have lastEq : last = z := by simpa using isLast.symm
    have headEq : head = x := by simpa using isHead.symm
    rw [lastEq, headEq]
    exact ⟨by rw [update_self], by rw [update_of_ne hNotX.symm, update_self]⟩

end Ring

/-! ## Chains that end in an absent link -/

section Chain

/-- From `first` the `next` links run through `l` and end; `back` is the `prev`
link of the first node. -/
def Chain (next prev : α → Option α) : Option α → Option α → List α → Prop
  | first, _, [] => first = none
  | first, back, x :: rest => first = some x ∧ prev x = back ∧ Chain next prev (next x) (some x) rest

variable {next prev : α → Option α}

variable {l : List α} {back first : Option α}

omit [DecidableEq α] in
theorem Chain.congr {next' prev' : α → Option α} (chain : Chain next prev first back l)
    (sameNext : ∀ x ∈ l, next' x = next x) (samePrev : ∀ x ∈ l, prev' x = prev x) :
    Chain next' prev' first back l := by
  induction l generalizing first back with
  | nil => exact chain
  | cons x rest ih =>
    obtain ⟨isFirst, isBack, tail⟩ := chain
    refine ⟨isFirst, (samePrev x (.head _)).trans isBack, ?_⟩
    rw [sameNext x (.head _)]
    exact ih tail (fun y member => sameNext y (.tail _ member)) (fun y member => samePrev y (.tail _ member))

variable {x : α}

omit [DecidableEq α] in
theorem Chain.first_mem (chain : Chain next prev first back l) (isFirst : first = some x) : x ∈ l := by
  cases l with
  | nil =>
    rw [isFirst] at chain
    cases chain
  | cons y rest =>
    obtain ⟨same, -, -⟩ := chain
    rw [isFirst] at same
    cases same
    exact .head _

variable {y : α}

omit [DecidableEq α] in
theorem Chain.next_mem (chain : Chain next prev first back l) (member : x ∈ l) (follows : next x = some y) :
    y ∈ l := by
  induction l generalizing first back with
  | nil => cases member
  | cons z rest ih =>
    obtain ⟨-, -, tail⟩ := chain
    rcases mem_cons.mp member with rfl | later
    · exact .tail _ (tail.first_mem follows)
    · exact .tail _ (ih tail later)

omit [DecidableEq α] in
theorem Chain.prev_mem (chain : Chain next prev first back l) (member : x ∈ l) (precedes : prev x = some y) :
    y ∈ l ∨ (first = some x ∧ back = some y) := by
  induction l generalizing first back with
  | nil => cases member
  | cons z rest ih =>
    obtain ⟨isFirst, isBack, tail⟩ := chain
    rcases mem_cons.mp member with rfl | later
    · exact .inr ⟨isFirst, isBack.symm.trans precedes⟩
    · rcases ih tail later with inside | ⟨-, before⟩
      · exact .inl (.tail _ inside)
      · cases before
        exact .inl (.head _)

def storeAt (links : α → Option α) (at? value : Option α) : α → Option α :=
  match at? with
  | some x => update links x value
  | none => links

theorem storeAt_of_ne {links : α → Option α} {at? value : Option α} (different : at? ≠ some y) :
    storeAt links at? value y = links y := by
  cases at? with
  | none => rfl
  | some x => exact update_of_ne (fun same => different (by rw [same])) _ _

@[simp] theorem storeAt_same (links : α → Option α) (at? : Option α) (y : α) :
    storeAt links at? (links y) y = links y := by
  by_cases same : at? = some y
  · rw [same]
    exact update_self _ _ _
  · exact storeAt_of_ne same

/-- The edit that takes `x` out of the chain it is on: its neighbours are
joined and the first link moves on when `x` was first. -/
def unlinkNext (next prev : α → Option α) (x : α) : α → Option α := storeAt next (prev x) (next x)

def unlinkPrev (next prev : α → Option α) (x : α) : α → Option α := storeAt prev (next x) (prev x)

def unlinkFirst (next : α → Option α) (first : Option α) (x : α) : Option α :=
  if first = some x then next x else first

theorem Chain.unlink (chain : Chain next prev first back l) (distinct : l.Nodup)
    (outside : ∀ b, back = some b → b ∉ l) (member : x ∈ l) :
    Chain (unlinkNext next prev x) (unlinkPrev next prev x) (unlinkFirst next first x) back (l.erase x) := by
  induction l generalizing first back with
  | nil => cases member
  | cons z rest ih =>
    obtain ⟨isFirst, isBack, tail⟩ := chain
    obtain ⟨fresh, distinctRest⟩ := nodup_cons.mp distinct
    by_cases same : z = x
    · subst same
      rw [erase_cons_head, unlinkFirst, if_pos isFirst]
      cases rest with
      | nil => exact tail
      | cons w ws =>
        obtain ⟨nextZ, prevW, behind⟩ := tail
        have backKept : ∀ y ∈ w :: ws, unlinkNext next prev z y = next y := by
          intro y inside
          refine storeAt_of_ne fun before => ?_
          exact outside y (isBack.symm.trans before) (.tail _ inside)
        refine ⟨nextZ, ?_, ?_⟩
        · rw [unlinkPrev, nextZ]
          simpa [storeAt] using isBack
        · rw [backKept w (.head _)]
          refine behind.congr (fun y inside => backKept y (.tail _ inside)) ?_
          intro y inside
          refine storeAt_of_ne fun after => ?_
          rw [nextZ] at after
          cases after
          exact (nodup_cons.mp distinctRest).1 inside
    · have later : x ∈ rest := by
        rcases mem_cons.mp member with equal | later
        · exact absurd equal.symm same
        · exact later
      rw [erase_cons_tail (by simpa using same)]
      have firstKept : unlinkFirst next first x = some z := by
        rw [unlinkFirst, if_neg (by rw [isFirst]; simpa using same), isFirst]
      have nextX : next x ≠ some z := fun after => fresh (tail.next_mem later after)
      refine ⟨firstKept, (storeAt_of_ne nextX).trans isBack, ?_⟩
      have joined : unlinkNext next prev x z = unlinkFirst next (next z) x := by
        by_cases follows : next z = some x
        · have prevX : prev x = some z := by
            cases rest with
            | nil => cases later
            | cons w ws =>
              obtain ⟨nextZ, prevW, -⟩ := tail
              rw [nextZ] at follows
              cases follows
              exact prevW
          rw [unlinkFirst, if_pos follows, unlinkNext, prevX]
          simp [storeAt]
        · rw [unlinkFirst, if_neg follows]
          refine storeAt_of_ne fun before => ?_
          rcases tail.prev_mem later before with inside | ⟨entry, -⟩
          · exact fresh inside
          · exact follows entry
      rw [joined]
      refine ih tail distinctRest ?_ later
      intro b isZ
      cases isZ
      exact fresh

theorem Chain.unlink_other (chain : Chain next prev first back l) (nextOutside : ∀ n, next x = some n → n ∉ l)
    (prevOutside : ∀ p, prev x = some p → p ∉ l) (absent : first ≠ some x) :
    Chain (unlinkNext next prev x) (unlinkPrev next prev x) (unlinkFirst next first x) back l := by
  rw [unlinkFirst, if_neg absent]
  refine chain.congr ?_ ?_
  · intro y inside
    exact storeAt_of_ne fun before => prevOutside y before inside
  · intro y inside
    exact storeAt_of_ne fun after => nextOutside y after inside

theorem Chain.linkFirst (chain : Chain next prev first none l) (distinct : l.Nodup) (fresh : x ∉ l) :
    Chain (update next x first) (storeAt (update prev x none) first (some x)) (some x) none (x :: l) := by
  have nextKept : ∀ y ∈ l, update next x first y = next y := by
    intro y inside
    have notX : y ≠ x := fun same => fresh (same ▸ inside)
    exact update_of_ne notX _ _
  cases l with
  | nil =>
    cases chain
    exact ⟨rfl, by simp [storeAt], by simp [Chain]⟩
  | cons w ws =>
    obtain ⟨isFirst, -, behind⟩ := chain
    subst isFirst
    have xNotW : x ≠ w := fun same => fresh (same ▸ .head _)
    refine ⟨rfl, ?_, ?_⟩
    · simp [storeAt, xNotW]
    · rw [update_self]
      refine ⟨rfl, by simp [storeAt], ?_⟩
      rw [nextKept w (.head _)]
      refine behind.congr (fun y inside => nextKept y (.tail _ inside)) ?_
      intro y inside
      have yNotW : y ≠ w := fun same => (nodup_cons.mp distinct).1 (same ▸ inside)
      have yNotX : y ≠ x := fun same => fresh (same ▸ .tail _ inside)
      simp [storeAt, yNotW, yNotX]

omit [DecidableEq α] in
theorem Chain.prev_of_next (chain : Chain next prev first back l) (member : x ∈ l) (follows : next x = some y) :
    prev y = some x := by
  induction l generalizing first back with
  | nil => cases member
  | cons z rest ih =>
    obtain ⟨-, -, tail⟩ := chain
    rcases mem_cons.mp member with rfl | later
    · cases rest with
      | nil => exact absurd (follows.symm.trans tail) (by simp)
      | cons w ws =>
        obtain ⟨isNext, isPrev, -⟩ := tail
        cases isNext.symm.trans follows
        exact isPrev
    · exact ih tail later

omit [DecidableEq α] in
theorem Chain.next_of_prev (chain : Chain next prev first back l) (member : x ∈ l) (precedes : prev x = some y) :
    (first = some x ∧ back = some y) ∨ (y ∈ l ∧ next y = some x) := by
  induction l generalizing first back with
  | nil => cases member
  | cons z rest ih =>
    obtain ⟨isFirst, isBack, tail⟩ := chain
    rcases mem_cons.mp member with rfl | later
    · exact .inl ⟨isFirst, isBack.symm.trans precedes⟩
    · rcases ih tail later with ⟨isNext, same⟩ | ⟨inside, isNext⟩
      · cases same
        exact .inr ⟨.head _, isNext⟩
      · exact .inr ⟨.tail _ inside, isNext⟩

omit [DecidableEq α] in
theorem Chain.prev_of_first (chain : Chain next prev first back l) (isFirst : first = some x) :
    prev x = back := by
  cases l with
  | nil => cases isFirst.symm.trans chain
  | cons y rest =>
    cases isFirst.symm.trans chain.1
    exact chain.2.1

omit [DecidableEq α] in
theorem Chain.first_of_prev (chain : Chain next prev first back l) (member : x ∈ l) (precedes : prev x = none) :
    first = some x ∧ back = none := by
  induction l generalizing first back with
  | nil => cases member
  | cons z rest ih =>
    obtain ⟨isFirst, isBack, tail⟩ := chain
    rcases mem_cons.mp member with rfl | later
    · exact ⟨isFirst, isBack.symm.trans precedes⟩
    · cases (ih tail later).2

omit [DecidableEq α] in
theorem Chain.next_ne_self (chain : Chain next prev first back l) (distinct : l.Nodup) (member : x ∈ l) :
    next x ≠ some x := by
  induction l generalizing first back with
  | nil => cases member
  | cons z rest ih =>
    obtain ⟨-, -, tail⟩ := chain
    obtain ⟨fresh, distinctRest⟩ := nodup_cons.mp distinct
    rcases mem_cons.mp member with rfl | later
    · exact fun self => fresh (tail.first_mem self)
    · exact ih tail distinctRest later

theorem Chain.splice {front behind : List α} {z h : α} (chain : Chain next prev first back (front ++ [z]))
    (other : Chain next prev (some h) none (h :: behind)) (distinct : (front ++ z :: h :: behind).Nodup) :
    Chain (update next z (some h)) (update prev h (some z)) first back (front ++ z :: h :: behind) := by
  induction front generalizing first back with
  | nil =>
    obtain ⟨isFirst, isBack, -⟩ := chain
    obtain ⟨zNew, hNew, -⟩ : z ∉ h :: behind ∧ h ∉ behind ∧ behind.Nodup := by
      simpa only [nil_append, nodup_cons] using distinct
    have zNotH : z ≠ h := fun same => zNew (same ▸ .head _)
    refine ⟨isFirst, (update_of_ne zNotH _ _).trans isBack, ?_⟩
    rw [update_self]
    refine ⟨rfl, update_self .., ?_⟩
    rw [update_of_ne zNotH.symm]
    refine other.2.2.congr (fun y inside => ?_) fun y inside => ?_
    · have notZ : y ≠ z := fun same => zNew (same ▸ .tail _ inside)
      exact update_of_ne notZ _ _
    · have notH : y ≠ h := fun same => hNew (same ▸ inside)
      exact update_of_ne notH _ _
  | cons y front ih =>
    obtain ⟨isFirst, isBack, tail⟩ := chain
    obtain ⟨fresh, distinctRest⟩ := nodup_cons.mp distinct
    have yNotZ : y ≠ z := fun same => fresh (by simp [same])
    have yNotH : y ≠ h := fun same => fresh (by simp [same])
    refine ⟨isFirst, (update_of_ne yNotH _ _).trans isBack, ?_⟩
    rw [update_of_ne yNotZ]
    exact ih tail distinctRest

end Chain

end IntrusiveList
