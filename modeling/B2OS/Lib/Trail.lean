import Mathlib.Data.List.Chain
import Mathlib.Data.List.Range
import Mathlib.Logic.Function.Iterate

/-!
# Trails of Computations

A computation that may not return still passes through states. Its `Trail` holds these states
in order, and the state that it returns in, if it returns.

## Main results

* `Trail.map_andThen`: a map of the states that commutes with the parts of a sequence commutes
  with the sequence.
* `Trail.Within.andThen`: a sequence keeps an invariant that its parts keep.
* `Trail.Along.andThen`: a sequence walks along an orbit when its parts do, each from where the
  one before it stands.
-/

universe u v

/-- The states that a computation passes through, and the one that it returns in. -/
structure Trail (σ : Type u) where
  passed : List σ
  final : Option σ

namespace Trail

variable {σ : Type u} {τ : Type v}

/-- A computation that returns at once. -/
def stay (s : σ) : Trail σ := ⟨[], some s⟩

/-- A computation of one step. -/
def step (s : σ) : Trail σ := ⟨[s], some s⟩

/-- A computation, and another one from where it returns. -/
def andThen (p : Trail σ) (f : σ → Trail σ) : Trail σ :=
  match p.final with
  | none => p
  | some s => ⟨p.passed ++ (f s).passed, (f s).final⟩

/-- The trail seen through a map of the states. -/
def map (g : σ → τ) (p : Trail σ) : Trail τ := ⟨p.passed.map g, p.final.map g⟩

@[simp] theorem map_stay (g : σ → τ) (s : σ) : (stay s).map g = stay (g s) := rfl

@[simp] theorem map_step (g : σ → τ) (s : σ) : (step s).map g = step (g s) := rfl

/-- A map that commutes with the second part, wherever the first one returns, commutes with the
sequence. -/
theorem map_andThen {g : σ → τ} {p : Trail σ} {f : σ → Trail σ} {f' : τ → Trail τ}
    (h : ∀ s ∈ p.final, (f s).map g = f' (g s)) :
    (p.andThen f).map g = (p.map g).andThen f' := by
  obtain ⟨passed, final⟩ := p
  cases final with
  | none => rfl
  | some s =>
      have hs : (f s).map g = f' (g s) := h s rfl
      simp only [andThen, map, Option.map_some, ← hs, List.map_append]

/-- Staying somewhere first changes nothing. -/
theorem stay_andThen (s : σ) (f : σ → Trail σ) : (stay s).andThen f = f s := rfl

theorem andThen_assoc (p : Trail σ) (f g : σ → Trail σ) :
    (p.andThen f).andThen g = p.andThen fun s => (f s).andThen g := by
  obtain ⟨passed, final⟩ := p
  cases final with
  | none => rfl
  | some s =>
      cases hs : (f s).final with
      | none => simp only [andThen, hs]
      | some t => simp only [andThen, hs, List.append_assoc]

/-- Where a sequence returns. -/
theorem mem_final_andThen {p : Trail σ} {f : σ → Trail σ} {t : σ} :
    t ∈ (p.andThen f).final ↔ ∃ s ∈ p.final, t ∈ (f s).final := by
  obtain ⟨passed, final⟩ := p
  cases final with
  | none => simp [andThen]
  | some s => simp [andThen]

/-- A sequence returns where its second part returns. -/
theorem final_andThen {p : Trail σ} {s : σ} (h : p.final = some s) (f : σ → Trail σ) :
    (p.andThen f).final = (f s).final := by
  rw [andThen, h]

/-- The computation passes through, and returns in, states with the property `I` only. -/
structure Within (I : σ → Prop) (p : Trail σ) : Prop where
  passed : ∀ s ∈ p.passed, I s
  final : ∀ s ∈ p.final, I s

theorem Within.stay {I : σ → Prop} {s : σ} (h : I s) : (Trail.stay s).Within I where
  passed _ ht := absurd ht List.not_mem_nil
  final _ ht := Option.some.inj ht ▸ h

theorem Within.step {I : σ → Prop} {s : σ} (h : I s) : (Trail.step s).Within I where
  passed _ ht := List.mem_singleton.mp ht ▸ h
  final _ ht := Option.some.inj ht ▸ h

theorem Within.mono {I J : σ → Prop} {p : Trail σ} (h : p.Within I) (hIJ : ∀ s, I s → J s) :
    p.Within J where
  passed s hs := hIJ s (h.passed s hs)
  final s hs := hIJ s (h.final s hs)

/-- A sequence stays where its parts stay. -/
theorem Within.andThen {I : σ → Prop} {p : Trail σ} {f : σ → Trail σ} (hp : p.Within I)
    (hf : ∀ s, I s → (f s).Within I) : (p.andThen f).Within I := by
  obtain ⟨passed, final⟩ := p
  cases final with
  | none => exact hp
  | some s =>
      have hs := hf s (hp.final s rfl)
      refine ⟨fun t ht => ?_, hs.final⟩
      rcases List.mem_append.mp ht with ht | ht
      · exact hp.passed t ht
      · exact hs.passed t ht

/-! ### Walks along an orbit -/

section Along

variable {f : τ → τ} {x : τ} {g : σ → τ} {n : ℕ}

/-- Seen through `g`, the computation **walks along the orbit** of `x` under `f`: it starts at
the `n`-th point of the orbit and stands at the points `ns` one after the other; each of them is
the point before it or the next one, so that no point is left out or comes again later. -/
structure Along (f : τ → τ) (x : τ) (g : σ → τ) (n : ℕ) (ns : List ℕ) (p : Trail σ) : Prop where
  chain : (n :: ns).IsChain fun i j => i ≤ j ∧ j ≤ i + 1
  passed : p.passed.map g = ns.map fun i => f^[i] x
  final : ∀ s ∈ p.final, g s = f^[ns.getLastD n] x

theorem Along.stay {s : σ} (h : g s = f^[n] x) : (Trail.stay s).Along f x g n [] where
  chain := .singleton n
  passed := rfl
  final _ ht := Option.some.inj ht ▸ h

/-- A step that is not seen through `g`. -/
theorem Along.step {s : σ} (h : g s = f^[n] x) : (Trail.step s).Along f x g n [n] where
  chain := .cons_cons ⟨Nat.le_refl n, Nat.le_succ n⟩ (.singleton n)
  passed := congrArg (fun t => [t]) h
  final _ ht := Option.some.inj ht ▸ h

/-- A sequence walks on where its first part stands. -/
theorem Along.andThen {p : Trail σ} {k : σ → Trail σ} {ns : List ℕ} (hp : p.Along f x g n ns)
    (hk : ∀ s ∈ p.final, g s = f^[ns.getLastD n] x →
      ∃ ns', (k s).Along f x g (ns.getLastD n) ns') :
    ∃ ns', (p.andThen k).Along f x g n ns' := by
  obtain ⟨passed, final⟩ := p
  cases final with
  | none => exact ⟨ns, hp⟩
  | some s =>
      obtain ⟨ns', hs⟩ := hk s rfl (hp.final s rfl)
      refine ⟨ns ++ ns', ?_, ?_, ?_⟩
      · have hlast : (n :: ns).getLast? = some (ns.getLastD n) := by
          rw [List.getLast?_cons, List.getLastD_eq_getLast?]
        rw [← List.cons_append, List.isChain_append]
        refine ⟨hp.chain, hs.chain.tail, fun i hi j hj => ?_⟩
        obtain rfl : ns.getLastD n = i := Option.some.inj (hlast.symm.trans hi)
        obtain ⟨m, rest, rfl⟩ := List.exists_cons_of_ne_nil (List.ne_nil_of_mem
          (List.mem_of_mem_head? hj))
        obtain rfl : m = j := Option.some.inj hj
        exact (List.isChain_cons_cons.mp hs.chain).1
      · rw [List.map_append, ← hs.passed, ← hp.passed]
        exact List.map_append
      · intro t ht
        have hlast : (ns ++ ns').getLastD n = ns'.getLastD (ns.getLastD n) := by
          cases ns' <;> simp [List.getLastD_eq_getLast?, List.getLast?_append]
        rw [hlast]
        exact hs.final t ht

/-- The points of a stretch of the orbit, without the one that it starts from. -/
theorem isChain_stretch (n k : ℕ) :
    (n :: (List.range k).map fun i => n + i + 1).IsChain fun i j => i ≤ j ∧ j ≤ i + 1 := by
  induction k generalizing n with
  | zero => exact .singleton n
  | succ k ih =>
      rw [List.range_succ_eq_map, List.map_cons, List.map_map]
      refine .cons_cons ⟨by omega, by omega⟩ ?_
      have hshift : ((fun i => n + i + 1) ∘ Nat.succ) = fun i => n + 1 + i + 1 := by
        funext i
        simp only [Function.comp_apply]
        omega
      rw [hshift]
      exact ih (n + 1)

end Along

end Trail
