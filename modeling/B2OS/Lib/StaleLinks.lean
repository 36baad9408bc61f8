import B2OS.Lib.BlockArena
import Mathlib.Data.Set.Basic

/-!
# Rows with Harmless Links Back

An allocator that does not store into the successor of a block that it splits leaves that
successor with a link back to the front of the split. Such a link does no harm as long as the
block that it leads to is in use: a block that is given back is merged with free blocks only.

`Backed` is a row of blocks whose links back lead to the block before, or to a block in use
further up. It is a property of the links back alone, beside `Links`, which is one of the links
to the successors.

## Main results

* `Chain.backed`: the links back of a chain are harmless.
* `Backed.take`, `Backed.split`: so they are after a block was taken, whole or split.
* `Backed.link`: where the link back of a block leads.
-/

universe u

namespace BlockChain

variable {τ : Type u} (h : ℕ)

/-- The places of the blocks in use of the row at `a`. -/
def usedPlaces (a : ℕ) : List (Block τ) → Set ℕ
  | [] => ∅
  | b :: bs => {x | x = a ∧ b.tag.isSome} ∪ usedPlaces (a + h + b.len) bs

/-- The links back of the row at `a` lead to the block before, the first to `prv`, or to one of
the places `seen`, where blocks in use stand in front of the row, or to a block in use of the
row further up. -/
def Backed (H : ℕ → Hdr) (seen : Set ℕ) (prv a : ℕ) : List (Block τ) → Prop
  | [] => True
  | b :: bs =>
      ((H a).prev = prv ∨ (H a).prev ∈ seen) ∧
        Backed H (seen ∪ {x | x = a ∧ b.tag.isSome}) a (a + h + b.len) bs

variable {h} {H H' : ℕ → Hdr} {seen seen' : Set ℕ} {fin prv prv' a x : ℕ}

/-- A block in use stands at the place. -/
theorem mem_usedPlaces_iff {bs : List (Block τ)} :
    x ∈ usedPlaces h a bs ↔
      ∃ pre b post, bs = pre ++ b :: post ∧ x = a + span h pre ∧ b.tag.isSome := by
  induction bs generalizing a with
  | nil => simp [usedPlaces]
  | cons c bs ih =>
      rw [usedPlaces, Set.mem_union, ih]
      constructor
      · rintro (⟨rfl, hc⟩ | ⟨pre, b, post, rfl, rfl, hb⟩)
        · exact ⟨[], c, bs, rfl, rfl, hc⟩
        · exact ⟨c :: pre, b, post, rfl, by rw [span_cons]; omega, hb⟩
      · rintro ⟨pre, b, post, heq, rfl, hb⟩
        cases pre with
        | nil =>
            obtain ⟨rfl, rfl⟩ := List.cons.inj heq
            exact .inl ⟨rfl, hb⟩
        | cons c pre =>
            obtain ⟨rfl, rfl⟩ := List.cons.inj heq
            exact .inr ⟨pre, b, post, rfl, by rw [span_cons]; omega, hb⟩

/-- Two rows in one: what stands in the first is in front of the second. -/
theorem backed_append {xs ys : List (Block τ)} :
    Backed h H seen prv a (xs ++ ys) ↔ Backed h H seen prv a xs ∧
      Backed h H (seen ∪ usedPlaces h a xs) (lastAddr h prv a xs) (a + span h xs) ys := by
  induction xs generalizing seen prv a with
  | nil => simp [Backed, usedPlaces, lastAddr]
  | cons b xs ih =>
      have hspan : a + h + b.len + span h xs = a + span h (b :: xs) := by
        rw [span_cons]
        omega
      rw [List.cons_append, Backed, Backed, ih, hspan, usedPlaces, Set.union_assoc, and_assoc]
      rfl

/-- Where the link back of a block leads. -/
theorem Backed.link {pre post : List (Block τ)} {b : Block τ}
    (hb : Backed h H seen prv a (pre ++ b :: post)) :
    (H (a + span h pre)).prev = lastAddr h prv a pre ∨
      (H (a + span h pre)).prev ∈ seen ∪ usedPlaces h a pre :=
  (backed_append.mp hb).2.1

/-- The links back of a chain are harmless. -/
theorem Chain.backed {bs : List (Block τ)} (hc : Chain h H fin prv a bs) :
    Backed h H seen prv a bs := by
  induction bs generalizing seen prv a with
  | nil => trivial
  | cons b bs ih => exact ⟨.inl (by rw [hc.1]), ih hc.2⟩

/-- Links back that are harmless are so behind more blocks in use, and when one of these stands
where the first one leads. -/
theorem Backed.mono {bs : List (Block τ)} (hb : Backed h H seen prv a bs) (hseen : seen ⊆ seen')
    (hprv : prv = prv' ∨ prv ∈ seen') : Backed h H seen' prv' a bs := by
  induction bs generalizing seen seen' prv prv' a with
  | nil => trivial
  | cons b bs ih =>
      refine ⟨?_, ih hb.2 (Set.union_subset_union_left _ hseen) (.inl rfl)⟩
      rcases hb.1 with hlink | hlink
      · rwa [hlink]
      · exact .inr (hseen hlink)

/-- The links back of a row stand in its headers. -/
theorem Backed.congr {bs : List (Block τ)} (hb : Backed h H seen prv a bs)
    (heq : ∀ x ∈ places h a bs, (H' x).prev = (H x).prev) : Backed h H' seen prv a bs := by
  induction bs generalizing seen prv a with
  | nil => trivial
  | cons b bs ih =>
      rw [places_cons, List.forall_mem_cons] at heq
      refine ⟨?_, ih hb.2 heq.2⟩
      rw [heq.1]
      exact hb.1

section Take

variable {pre post : List (Block τ)} {b : Block τ} {t : τ}

/-- A whole block is taken. -/
theorem Backed.take (hb : Backed h H seen prv a (pre ++ b :: post))
    (heq : ∀ x ∈ places h a (pre ++ b :: post), (H' x).prev = (H x).prev) :
    Backed h H' seen prv a (pre ++ ⟨b.len, some t⟩ :: post) := by
  obtain ⟨hpre, hlink, hpost⟩ := backed_append.mp (hb.congr heq)
  refine backed_append.mpr ⟨hpre, hlink, hpost.mono (fun x hx => ?_) (.inl rfl)⟩
  rcases hx with hx | ⟨rfl, -⟩
  · exact .inl hx
  · exact .inr ⟨rfl, rfl⟩

/-- The first `n` bytes of a block are taken. The new block behind them links back to them, and
the block behind that one may do so too. -/
theorem Backed.split {n r : ℕ} (hb : Backed h H seen prv a (pre ++ b :: post))
    (hlen : n + h + r = b.len)
    (heq : ∀ x ∈ places h a (pre ++ b :: post), (H' x).prev = (H x).prev)
    (hnew : (H' (a + span h pre + h + n)).prev = a + span h pre) :
    Backed h H' seen prv a (pre ++ ⟨n, some t⟩ :: ⟨r, none⟩ :: post) := by
  obtain ⟨hpre, hlink, hpost⟩ := backed_append.mp (hb.congr heq)
  have hplace : a + span h pre + h + n + h + r = a + span h pre + h + b.len := by omega
  refine backed_append.mpr ⟨hpre, hlink, .inl hnew, ?_⟩
  dsimp only
  rw [hplace]
  refine hpost.mono (fun x hx => ?_) (.inr (.inl (.inr ⟨rfl, rfl⟩)))
  rcases hx with hx | ⟨rfl, -⟩
  · exact .inl (.inl hx)
  · exact .inl (.inr ⟨rfl, rfl⟩)

end Take

end BlockChain
