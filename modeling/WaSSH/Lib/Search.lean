import Mathlib

/-!
# Searching with a stack

A search takes a node from the top of its stack, keeps what it finds there, and puts the nodes to
search next on the stack, one after the other.

* `Search`: what is found at a node, and the nodes next to it; they lie lower;
* `Search.run`: the search; `Search.collect`: what is found from a node on;
* **`Search.run_eq`**: the stack does not show;
* **`Search.mem_collect`**: what is found is what is found at a node that can be reached;
  `Search.nodup_collect`: once each.
-/

/-- Something to search in. -/
structure Search (ν β : Type*) where
  out : ν → List β
  next : ν → List ν
  height : ν → ℕ
  lower : ∀ {x y}, y ∈ next x → height y < height x

namespace Search

variable {ν β : Type*} (S : Search ν β)

/-- The nodes that are searched from `x` on, counted with every way there. -/
def steps (x : ν) : ℕ := 1 + ((S.next x).attach.map fun y => steps y.1).sum
termination_by S.height x
decreasing_by exact S.lower y.2

theorem steps_eq (x : ν) : S.steps x = 1 + ((S.next x).map S.steps).sum := by
  rw [steps, List.attach_map_val]

/-- The search: the top of the stack is its head. -/
def run : List ν → List β → List β
  | [], found => found
  | x :: stack, found => run ((S.next x).reverse ++ stack) (found ++ S.out x)
termination_by stack _ => (stack.map S.steps).sum
decreasing_by
  simp only [List.map_append, List.sum_append, List.unattach_reverse, List.unattach_attach,
    List.map_reverse, List.sum_reverse, List.map_cons, List.sum_cons, S.steps_eq x]
  omega

/-- What is found from `x` on. -/
def collect (x : ν) : List β :=
  S.out x ++ (S.next x).reverse.attach.flatMap fun y => collect y.1
termination_by S.height x
decreasing_by exact S.lower (List.mem_reverse.mp y.2)

theorem collect_eq (x : ν) :
    S.collect x = S.out x ++ (S.next x).reverse.flatMap S.collect := by
  rw [collect, List.flatMap_subtype (g := S.collect) (by simp), List.unattach_attach]

/-- **The stack does not show.** -/
theorem run_eq (stack : List ν) (found : List β) :
    S.run stack found = found ++ stack.flatMap S.collect := by
  induction stack, found using run.induct (S := S) with
  | case1 found => simp [run]
  | case2 x stack found ih =>
    rw [List.unattach_reverse, List.unattach_attach] at ih
    rw [run, ih, List.flatMap_append, List.flatMap_cons, S.collect_eq x]
    simp only [List.append_assoc]

/-! ## What is found -/

/-- `y` is one of the nodes to search next after `x`. -/
def Next (x y : ν) : Prop := y ∈ S.next x

variable {S}

/-- **What is found** from a node on is what is found at a node that can be reached from it. -/
theorem mem_collect {x : ν} {b : β} :
    b ∈ S.collect x ↔ ∃ y, Relation.ReflTransGen S.Next x y ∧ b ∈ S.out y := by
  constructor
  · intro hb
    induction hn : S.height x using Nat.strongRecOn generalizing x with
    | _ n ih =>
      rw [S.collect_eq, List.mem_append, List.mem_flatMap] at hb
      rcases hb with hb | ⟨y, hy, hb⟩
      · exact ⟨x, .refl, hb⟩
      · have hnext : S.Next x y := List.mem_reverse.mp hy
        obtain ⟨z, hz, hb⟩ := ih _ (hn ▸ S.lower hnext) hb rfl
        exact ⟨z, .head hnext hz, hb⟩
  · rintro ⟨y, hreach, hb⟩
    induction hreach using Relation.ReflTransGen.head_induction_on with
    | refl =>
      rw [S.collect_eq]
      exact List.mem_append_left _ hb
    | head hnext _ ih =>
      rw [S.collect_eq]
      exact List.mem_append_right _ (List.mem_flatMap.mpr ⟨_, List.mem_reverse.mpr hnext, ih⟩)

/-- Everything is found once, if it is found on one way only. -/
theorem nodup_collect (hout : ∀ x, (S.out x).Nodup) (hnext : ∀ x, (S.next x).Nodup)
    (hbelow : ∀ x y b, S.Next x y → b ∈ S.out x → b ∉ S.collect y)
    (hapart : ∀ x y z b, S.Next x y → S.Next x z → b ∈ S.collect y → b ∈ S.collect z → y = z)
    (x : ν) : (S.collect x).Nodup := by
  induction hn : S.height x using Nat.strongRecOn generalizing x with
  | _ n ih =>
    rw [S.collect_eq, List.nodup_append]
    refine ⟨hout x, List.nodup_flatMap.mpr ⟨fun y hy => ?_, ?_⟩, fun b hb c hc heq => ?_⟩
    · exact ih _ (hn ▸ S.lower (List.mem_reverse.mp hy)) y rfl
    · refine (List.nodup_reverse.mpr (hnext x)).imp_of_mem fun {y z} hy hz hne b hb hb' => ?_
      exact hne (hapart x y z b (List.mem_reverse.mp hy) (List.mem_reverse.mp hz) hb hb')
    · obtain ⟨y, hy, hc⟩ := List.mem_flatMap.mp hc
      exact hbelow x y b (List.mem_reverse.mp hy) hb (heq ▸ hc)

end Search
