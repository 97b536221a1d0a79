import Mathlib.Algebra.GroupWithZero.Nat
import Mathlib.Data.List.Basic
import Mathlib.Data.List.Chain
import Mathlib.Data.List.TakeWhile
import Mathlib.Logic.Function.Basic
import Mathlib.Logic.Relation
import Mathlib.Order.RelClasses

/-!
# A depth-first search for cycles

The search colours the nodes: white before it reaches a node, grey while it works on it, black once
it has worked on everything the node depends on.  A grey node met again closes a cycle.  When the
search meets none, every node is accessible, so that every non-empty set of nodes has one that
depends on none of the others.
-/

namespace CycleSearch

inductive Color where
  | white | grey | black
  deriving DecidableEq

/-- Why a search stops before it has seen every node. -/
inductive Stop (κ : Type) where
  /-- A node that is not there. -/
  | missing (x : κ)
  /-- A path that ends where it starts. -/
  | cycle (path : List κ)

variable {κ : Type} [DecidableEq κ]

/-- The nodes that are still white. -/
def whites (order : List κ) (color : κ → Color) : Nat := order.countP fun x => color x = .white

theorem whites_update {order : List κ} {color : κ → Color} {x : κ} (hx : x ∈ order)
    (hw : color x = .white) :
    whites order (Function.update color x .grey) < whites order color := by
  have hle (l : List κ) : whites l (Function.update color x .grey) ≤ whites l color := by
    refine List.countP_mono_left fun y _ hy => ?_
    by_cases he : y = x
    · rw [he]
      simpa using hw
    · simpa [Function.update_of_ne he] using hy
  induction order with
  | nil => exact absurd hx List.not_mem_nil
  | cons y order ih =>
    have hcons (c : κ → Color) : whites (y :: order) c =
        whites order c + if c y = .white then 1 else 0 := by simp [whites, List.countP_cons]
    rw [hcons, hcons]
    by_cases he : y = x
    · subst he
      have := hle order
      rw [Function.update_self, if_pos hw, if_neg (by decide)]
      omega
    · have := ih (List.mem_of_ne_of_mem (Ne.symm he) hx)
      rw [Function.update_of_ne he]
      omega

/-- How much of the dependencies on the stack is still to be looked at. -/
def work (stack : List (κ × List κ)) : Nat := (stack.map fun e => e.2.length + 1).sum

/-- The search from a stack of grey nodes, the one under work first, each with the dependencies that
are still to be looked at. -/
def visit (order : List κ) (deps : κ → List κ) (color : κ → Color) :
    List (κ × List κ) → Except (Stop κ) (κ → Color)
  | [] => .ok color
  | (node, []) :: stack => visit order deps (Function.update color node .black) stack
  | (node, nxt :: pending) :: stack =>
    if _hin : nxt ∈ order then
      match _hc : color nxt with
      | .grey =>
        let path := (stack.map Prod.fst).reverse ++ [node]
        .error (.cycle (path.dropWhile (fun x => x ≠ nxt) ++ [nxt]))
      | .white =>
        visit order deps (Function.update color nxt .grey)
          ((nxt, deps nxt) :: (node, pending) :: stack)
      | .black => visit order deps color ((node, pending) :: stack)
    else .error (.missing nxt)
termination_by stack => (whites order color, work stack)
decreasing_by
  · have hle : whites order (Function.update color node .black) ≤ whites order color := by
      refine List.countP_mono_left fun y _ hy => ?_
      by_cases he : y = node
      · simp [he] at hy
      · simpa [Function.update_of_ne he] using hy
    rcases Nat.lt_or_eq_of_le hle with hlt | heq
    · exact Prod.Lex.left _ _ hlt
    · rw [heq]
      exact Prod.Lex.right _ (by simp [work])
  · exact Prod.Lex.left _ _ (whites_update _hin _hc)
  · exact Prod.Lex.right _ (by simp [work])

/-- The search from every node in turn. -/
def search (order : List κ) (deps : κ → List κ) : Except (Stop κ) (κ → Color) :=
  order.foldlM (fun color start =>
    if color start ≠ .white then .ok color
    else visit order deps (Function.update color start .grey) [(start, deps start)]) fun _ => .white

/-! ## What a search that ends says -/

/-- What is left of the dependencies of the nodes on the stack: the others are black, but for the
node that is under work above. -/
def Waits (deps : κ → List κ) (color : κ → Color) : (above : Option κ) → List (κ × List κ) → Prop
  | _, [] => True
  | above, (node, pending) :: stack =>
    (∀ d ∈ deps node, d ∈ pending ∨ color d = .black ∨ above = some d) ∧
      Waits deps color (some node) stack

omit [DecidableEq κ] in
theorem Waits.mono {deps : κ → List κ} {color color' : κ → Color}
    (hblack : ∀ x, color x = .black → color' x = .black) {above above' : Option κ}
    (habove : ∀ d, above = some d → color' d = .black ∨ above' = some d) :
    ∀ {stack : List (κ × List κ)}, Waits deps color above stack → Waits deps color' above' stack
  | [], _ => trivial
  | (node, pending) :: stack, h => by
    refine ⟨fun d hd => ?_, Waits.mono hblack (fun d hd => .inr hd) h.2⟩
    rcases h.1 d hd with hp | hb | ha
    · exact .inl hp
    · exact .inr (.inl (hblack d hb))
    · exact .inr (habove d ha)

/-- What holds throughout a search. -/
structure Searching (deps : κ → List κ) (color : κ → Color) (stack : List (κ × List κ)) : Prop where
  finished : ∀ x, color x = .black → Acc (fun d x => d ∈ deps x) x
  grey : ∀ x, color x = .grey → x ∈ stack.map Prod.fst
  waits : Waits deps color none stack

variable {order : List κ} {deps : κ → List κ} {color : κ → Color}

theorem Searching.pop {node : κ} {stack : List (κ × List κ)}
    (h : Searching deps color ((node, []) :: stack)) :
    Searching deps (Function.update color node .black) stack where
  finished x hx := by
    by_cases he : x = node
    · subst he
      refine ⟨x, fun d hd => h.finished d ?_⟩
      rcases h.waits.1 d hd with hp | hb | ha
      · exact absurd hp List.not_mem_nil
      · exact hb
      · cases ha
    · exact h.finished x (by rwa [Function.update_of_ne he] at hx)
  grey x hx := by
    by_cases he : x = node
    · simp [he] at hx
    · rw [Function.update_of_ne he] at hx
      exact (List.mem_cons.1 (h.grey x hx)).resolve_left he
  waits := by
    refine h.waits.2.mono (fun x hx => ?_) fun d hd => .inl ?_
    · by_cases he : x = node
      · rw [he, Function.update_self]
      · rwa [Function.update_of_ne he]
    · obtain rfl := Option.some.inj hd
      exact Function.update_self ..

theorem Searching.push {node nxt : κ} {pending : List κ} {stack : List (κ × List κ)}
    (h : Searching deps color ((node, nxt :: pending) :: stack)) (hw : color nxt = .white) :
    Searching deps (Function.update color nxt .grey)
      ((nxt, deps nxt) :: (node, pending) :: stack) := by
  have hne {x : κ} (hx : color x = .black) : x ≠ nxt := by
    rintro rfl
    rw [hw] at hx
    cases hx
  have hblack : ∀ x, color x = .black → Function.update color nxt .grey x = .black :=
    fun x hx => by rwa [Function.update_of_ne (hne hx)]
  refine ⟨fun x hx => ?_, fun x hx => ?_, fun d hd => .inl hd, fun d hd => ?_, ?_⟩
  · by_cases he : x = nxt
    · simp [he] at hx
    · exact h.finished x (by rwa [Function.update_of_ne he] at hx)
  · by_cases he : x = nxt
    · exact List.mem_cons.2 (.inl he)
    · rw [Function.update_of_ne he] at hx
      exact List.mem_cons_of_mem _ (h.grey x hx)
  · rcases h.waits.1 d hd with hp | hb | ha
    · rcases List.mem_cons.1 hp with rfl | hp
      · exact .inr (.inr rfl)
      · exact .inl hp
    · exact .inr (.inl (hblack d hb))
    · cases ha
  · exact h.waits.2.mono hblack fun d hd => .inr hd

omit [DecidableEq κ] in
theorem Searching.skip {node nxt : κ} {pending : List κ} {stack : List (κ × List κ)}
    (h : Searching deps color ((node, nxt :: pending) :: stack)) (hb : color nxt = .black) :
    Searching deps color ((node, pending) :: stack) where
  finished := h.finished
  grey := h.grey
  waits := by
    refine ⟨fun d hd => ?_, h.waits.2⟩
    rcases h.waits.1 d hd with hp | hd | ha
    · rcases List.mem_cons.1 hp with rfl | hp
      · exact .inr (.inl hb)
      · exact .inl hp
    · exact .inr (.inl hd)
    · cases ha

/-- A visit that ends leaves the nodes of its stack black, and every black node as it was. -/
theorem visit_spec {stack : List (κ × List κ)} {color' : κ → Color}
    (h : Searching deps color stack) (hv : visit order deps color stack = .ok color') :
    Searching deps color' [] ∧ (∀ x, color x = .black → color' x = .black) ∧
      ∀ x ∈ stack.map Prod.fst, color' x = .black := by
  induction color, stack using visit.induct order deps with
  | case1 color =>
    rw [visit] at hv
    obtain rfl := Except.ok.inj hv
    exact ⟨h, fun _ hx => hx, fun x hx => absurd hx List.not_mem_nil⟩
  | case2 color node stack ih =>
    rw [visit] at hv
    obtain ⟨hs, hblack, hstack⟩ := ih h.pop hv
    have hnode : color' node = .black := hblack node (Function.update_self ..)
    refine ⟨hs, fun x hx => ?_, fun x hx => ?_⟩
    · by_cases he : x = node
      · rwa [he]
      · exact hblack x (by rwa [Function.update_of_ne he])
    · rcases List.mem_cons.1 hx with rfl | hx
      · exact hnode
      · exact hstack x hx
  | case3 color node nxt pending stack hin hc =>
    rw [visit, dif_pos hin] at hv
    split at hv
    · cases hv
    · rename_i hw
      rw [hc] at hw
      cases hw
    · rename_i hw
      rw [hc] at hw
      cases hw
  | case4 color node nxt pending stack hin hc ih =>
    rw [visit, dif_pos hin] at hv
    split at hv
    · cases hv
    · obtain ⟨hs, hblack, hstack⟩ := ih (h.push hc) hv
      refine ⟨hs, fun x hx => hblack x ?_, fun x hx => hstack x (List.mem_cons_of_mem _ hx)⟩
      rwa [Function.update_of_ne]
      rintro rfl
      rw [hc] at hx
      cases hx
    · rename_i hb
      rw [hc] at hb
      cases hb
  | case5 color node nxt pending stack hin hc ih =>
    rw [visit, dif_pos hin] at hv
    split at hv
    · cases hv
    · rename_i hw
      rw [hc] at hw
      cases hw
    · exact ih (h.skip hc) hv
  | case6 color node nxt pending stack hin =>
    rw [visit, dif_neg hin] at hv
    cases hv

/-- A search whose dependencies are all nodes never misses one. -/
theorem visit_ne_missing {stack : List (κ × List κ)} {x : κ}
    (hclosed : ∀ y ∈ order, ∀ d ∈ deps y, d ∈ order)
    (hstack : ∀ e ∈ stack, ∀ d ∈ e.2, d ∈ order) :
    visit order deps color stack ≠ .error (.missing x) := by
  induction color, stack using visit.induct order deps with
  | case1 color =>
    rw [visit]
    exact nofun
  | case2 color node stack ih =>
    rw [visit]
    exact ih fun e he => hstack e (List.mem_cons_of_mem _ he)
  | case3 color node nxt pending stack hin hc =>
    rw [visit, dif_pos hin]
    split <;> simp_all
  | case4 color node nxt pending stack hin hc ih =>
    rw [visit, dif_pos hin]
    split
    · exact nofun
    · refine ih fun e he => ?_
      rcases List.mem_cons.1 he with rfl | he
      · exact hclosed nxt hin
      · rcases List.mem_cons.1 he with rfl | he
        · exact fun d hd => hstack _ List.mem_cons_self d (List.mem_cons_of_mem _ hd)
        · exact hstack e (List.mem_cons_of_mem _ he)
    · rename_i hb
      rw [hc] at hb
      cases hb
  | case5 color node nxt pending stack hin hc ih =>
    rw [visit, dif_pos hin]
    split
    · exact nofun
    · rename_i hw
      rw [hc] at hw
      cases hw
    · refine ih fun e he => ?_
      rcases List.mem_cons.1 he with rfl | he
      · exact fun d hd => hstack _ List.mem_cons_self d (List.mem_cons_of_mem _ hd)
      · exact hstack e (List.mem_cons_of_mem _ he)
  | case6 color node nxt pending stack hin =>
    exact absurd (hstack _ List.mem_cons_self nxt List.mem_cons_self) hin

theorem search_ne_missing {x : κ} (hclosed : ∀ y ∈ order, ∀ d ∈ deps y, d ∈ order) :
    search order deps ≠ .error (.missing x) := by
  have hfold : ∀ (todo : List κ) (color : κ → Color), (∀ y ∈ todo, y ∈ order) →
      todo.foldlM (fun color start =>
        if color start ≠ .white then .ok color
        else visit order deps (Function.update color start .grey) [(start, deps start)]) color ≠
        .error (.missing x) := by
    intro todo
    induction todo with
    | nil => exact fun _ _ => nofun
    | cons start todo ih =>
      intro color htodo
      rw [List.foldlM_cons]
      have hrest := fun c => ih c fun y hy => htodo y (List.mem_cons_of_mem _ hy)
      split
      · exact hrest color
      · cases hv : visit order deps (Function.update color start .grey) [(start, deps start)] with
        | ok c => exact hrest c
        | error stop =>
          refine fun he => visit_ne_missing hclosed (fun e he d hd => ?_) (hv.trans he)
          obtain rfl := List.mem_singleton.1 he
          exact hclosed start (htodo start List.mem_cons_self) d hd
  exact hfold order _ fun _ hy => hy

theorem Searching.start {start : κ} (h : Searching deps color []) :
    Searching deps (Function.update color start .grey) [(start, deps start)] := by
  refine ⟨fun x hx => ?_, fun x hx => ?_, fun d hd => .inl hd, trivial⟩
  · by_cases he : x = start
    · simp [he] at hx
    · exact h.finished x (by rwa [Function.update_of_ne he] at hx)
  · by_cases he : x = start
    · exact List.mem_cons.2 (.inl he)
    · rw [Function.update_of_ne he] at hx
      exact absurd (h.grey x hx) List.not_mem_nil

/-- After a search that ends, every node is accessible. -/
theorem search_spec {color' : κ → Color} (hs : search order deps = .ok color') :
    ∀ x ∈ order, Acc (fun d x => d ∈ deps x) x := by
  have hfold : ∀ (todo : List κ) (color : κ → Color), Searching deps color [] →
      todo.foldlM (fun color start =>
        if color start ≠ .white then .ok color
        else visit order deps (Function.update color start .grey) [(start, deps start)]) color =
        .ok color' →
      (∀ x, color' x = .black → Acc (fun d x => d ∈ deps x) x) ∧
        (∀ x, color x = .black → color' x = .black) ∧ ∀ x ∈ todo, color' x = .black := by
    intro todo
    induction todo with
    | nil =>
      intro color h hf
      obtain rfl := Except.ok.inj hf
      exact ⟨h.finished, fun _ hx => hx, fun x hx => absurd hx List.not_mem_nil⟩
    | cons start todo ih =>
      intro color h hf
      rw [List.foldlM_cons] at hf
      by_cases hw : color start = .white
      · rw [if_neg (not_not.2 hw)] at hf
        have hstart : Searching deps (Function.update color start .grey) [(start, deps start)] :=
          h.start
        cases hv : visit order deps (Function.update color start .grey) [(start, deps start)] with
        | error e =>
          rw [hv] at hf
          cases hf
        | ok color₁ =>
          rw [hv] at hf
          obtain ⟨hs₁, hblack₁, hstack⟩ := visit_spec hstart hv
          obtain ⟨hacc, hblack, htodo⟩ := ih color₁ hs₁ hf
          refine ⟨hacc, fun x hx => hblack x (hblack₁ x ?_), fun x hx => ?_⟩
          · rwa [Function.update_of_ne]
            rintro rfl
            rw [hw] at hx
            cases hx
          · rcases List.mem_cons.1 hx with rfl | hx
            · exact hblack x (hstack x List.mem_cons_self)
            · exact htodo x hx
      · rw [if_pos hw] at hf
        obtain ⟨hacc, hblack, htodo⟩ := ih color h hf
        refine ⟨hacc, hblack, fun x hx => ?_⟩
        rcases List.mem_cons.1 hx with rfl | hx
        · refine hblack x ?_
          cases hx : color x with
          | white => exact absurd hx hw
          | grey => exact absurd (h.grey x hx) List.not_mem_nil
          | black => rfl
        · exact htodo x hx
  obtain ⟨hacc, -, hall⟩ := hfold order (fun _ => .white)
    ⟨fun _ hx => (by cases hx), fun _ hx => (by cases hx), trivial⟩ hs
  exact fun x hx => hacc x (hall x hx)

/-! ## What a search that stops at a cycle says -/

/-- A path that ends where it starts, on which every node depends on the next. -/
structure Closed (deps : κ → List κ) (path : List κ) : Prop where
  length : 2 ≤ path.length
  ends : path.head? = path.getLast?
  chain : path.IsChain fun x d => d ∈ deps x

/-- The nodes on the stack are a path, from the last one up, and what is left of their dependencies
are dependencies. -/
structure OnPath (deps : κ → List κ) (stack : List (κ × List κ)) : Prop where
  pending : ∀ e ∈ stack, ∀ d ∈ e.2, d ∈ deps e.1
  chain : (stack.map Prod.fst).IsChain fun d x => d ∈ deps x

omit [DecidableEq κ] in
theorem OnPath.pop {e : κ × List κ} {stack : List (κ × List κ)} (h : OnPath deps (e :: stack)) :
    OnPath deps stack where
  pending e' he' := h.pending e' (List.mem_cons_of_mem _ he')
  chain := h.chain.tail

omit [DecidableEq κ] in
theorem OnPath.skip {node nxt : κ} {pending : List κ} {stack : List (κ × List κ)}
    (h : OnPath deps ((node, nxt :: pending) :: stack)) :
    OnPath deps ((node, pending) :: stack) where
  pending e he := by
    rcases List.mem_cons.1 he with rfl | he
    · exact fun d hd => h.pending _ List.mem_cons_self d (List.mem_cons_of_mem _ hd)
    · exact h.pending e (List.mem_cons_of_mem _ he)
  chain := h.chain

omit [DecidableEq κ] in
theorem OnPath.push {node nxt : κ} {pending : List κ} {stack : List (κ × List κ)}
    (h : OnPath deps ((node, nxt :: pending) :: stack)) :
    OnPath deps ((nxt, deps nxt) :: (node, pending) :: stack) where
  pending e he := by
    rcases List.mem_cons.1 he with rfl | he
    · exact fun d hd => hd
    · exact h.skip.pending e he
  chain := List.isChain_cons_cons.2 ⟨h.pending _ List.mem_cons_self nxt List.mem_cons_self, h.chain⟩

/-- A grey node that is met again closes the path to it. -/
theorem OnPath.closed {node nxt : κ} {pending : List κ} {stack : List (κ × List κ)}
    (h : OnPath deps ((node, nxt :: pending) :: stack))
    (hmem : nxt ∈ ((node, nxt :: pending) :: stack).map Prod.fst) :
    Closed deps
      (((stack.map Prod.fst).reverse ++ [node]).dropWhile (fun x => x ≠ nxt) ++ [nxt]) := by
  let path := (stack.map Prod.fst).reverse ++ [node]
  have hreverse : path = (((node, nxt :: pending) :: stack).map Prod.fst).reverse := by
    rw [List.map_cons, List.reverse_cons]
  have hin : nxt ∈ path := hreverse ▸ List.mem_reverse.2 hmem
  have hsuffix : path.dropWhile (fun x => x ≠ nxt) <:+ path := List.dropWhile_suffix _
  have hlast : path.getLast? = some node := List.getLast?_concat
  have hpath : path.IsChain fun x d => d ∈ deps x := by
    rw [hreverse, List.isChain_reverse]
    exact h.chain
  obtain ⟨rest, hrest⟩ : ∃ rest, path.dropWhile (fun x => x ≠ nxt) = nxt :: rest := by
    cases hdrop : path.dropWhile fun x => x ≠ nxt with
    | nil => exact absurd (List.dropWhile_eq_nil_iff.1 hdrop nxt hin) (by simp)
    | cons x rest =>
      have hx := List.head?_dropWhile_not (fun x => decide (x ≠ nxt)) path
      rw [hdrop] at hx
      exact ⟨rest, by rw [show x = nxt by simpa using hx]⟩
  have hend : (nxt :: rest).getLast? = some node := by
    obtain ⟨before, hbefore⟩ := hsuffix
    rw [hrest] at hbefore
    rw [← hlast, ← hbefore, List.getLast?_append, List.getLast?_cons, Option.some_or]
  change Closed deps (path.dropWhile (fun x => x ≠ nxt) ++ [nxt])
  rw [hrest]
  refine ⟨by simp, by rw [List.getLast?_concat, List.cons_append, List.head?_cons], ?_⟩
  refine List.isChain_append.2 ⟨hrest ▸ hpath.suffix hsuffix, List.isChain_singleton _, ?_⟩
  intro x hx y hy
  rw [hend] at hx
  obtain rfl := Option.some.inj hx
  obtain rfl := Option.some.inj hy
  exact h.pending _ List.mem_cons_self nxt List.mem_cons_self

theorem visit_cycle {stack : List (κ × List κ)} {path : List κ} (h : Searching deps color stack)
    (hpath : OnPath deps stack) (hv : visit order deps color stack = .error (.cycle path)) :
    Closed deps path ∧ ∀ x ∈ path.head?, x ∈ order := by
  induction color, stack using visit.induct order deps with
  | case1 color =>
    rw [visit] at hv
    cases hv
  | case2 color node stack ih =>
    rw [visit] at hv
    exact ih h.pop hpath.pop hv
  | case3 color node nxt pending stack hin hc =>
    rw [visit, dif_pos hin] at hv
    split at hv
    · cases hv
      have hclosed := hpath.closed (h.grey nxt hc)
      refine ⟨hclosed, fun x hx => ?_⟩
      rw [hclosed.ends, List.getLast?_concat] at hx
      obtain rfl := Option.some.inj hx
      exact hin
    · rename_i hw
      rw [hc] at hw
      cases hw
    · rename_i hw
      rw [hc] at hw
      cases hw
  | case4 color node nxt pending stack hin hc ih =>
    rw [visit, dif_pos hin] at hv
    split at hv
    · rename_i hg
      rw [hc] at hg
      cases hg
    · exact ih (h.push hc) hpath.push hv
    · rename_i hb
      rw [hc] at hb
      cases hb
  | case5 color node nxt pending stack hin hc ih =>
    rw [visit, dif_pos hin] at hv
    split at hv
    · rename_i hg
      rw [hc] at hg
      cases hg
    · rename_i hw
      rw [hc] at hw
      cases hw
    · exact ih (h.skip hc) hpath.skip hv
  | case6 color node nxt pending stack hin =>
    rw [visit, dif_neg hin] at hv
    cases hv

/-- A search that stops at a cycle has found one. -/
theorem search_cycle {path : List κ} (hs : search order deps = .error (.cycle path)) :
    Closed deps path ∧ ∀ x ∈ path.head?, x ∈ order := by
  have hfold : ∀ (todo : List κ) (color : κ → Color), Searching deps color [] →
      todo.foldlM (fun color start =>
        if color start ≠ .white then .ok color
        else visit order deps (Function.update color start .grey) [(start, deps start)]) color =
        .error (.cycle path) → Closed deps path ∧ ∀ x ∈ path.head?, x ∈ order := by
    intro todo
    induction todo with
    | nil => exact fun _ _ => nofun
    | cons start todo ih =>
      intro color h hf
      rw [List.foldlM_cons] at hf
      by_cases hw : color start = .white
      · rw [if_neg (not_not.2 hw)] at hf
        have hpath : OnPath deps [(start, deps start)] := by
          refine ⟨fun e he d hd => ?_, List.isChain_singleton _⟩
          obtain rfl := List.mem_singleton.1 he
          exact hd
        cases hv : visit order deps (Function.update color start .grey) [(start, deps start)] with
        | error stop =>
          rw [hv] at hf
          cases hf
          exact visit_cycle h.start hpath hv
        | ok color₁ =>
          rw [hv] at hf
          exact ih color₁ (visit_spec h.start hv).1 hf
      · rw [if_pos hw] at hf
        exact ih color h hf
  exact hfold order (fun _ => .white)
    ⟨fun _ hx => (by cases hx), fun _ hx => (by cases hx), trivial⟩ hs

/-! ## Graphs without cycles -/

/-- No node depends on itself, directly or through others. -/
def Acyclic (order : List κ) (deps : κ → List κ) : Prop :=
  ∀ x ∈ order, ¬ Relation.TransGen (fun x d => d ∈ deps x) x x

omit [DecidableEq κ] in
theorem not_transGen_of_acc {x : κ} (h : Acc (fun d x => d ∈ deps x) x) :
    ¬ Relation.TransGen (fun x d => d ∈ deps x) x x := by
  induction h with
  | intro x _ ih =>
    intro hloop
    obtain ⟨d, hd, hback⟩ := Relation.TransGen.head'_iff.1 hloop
    exact ih d hd (Relation.TransGen.tail' hback hd)

omit [DecidableEq κ] in
theorem Closed.not_acyclic {path : List κ} (h : Closed deps path)
    (hin : ∀ x ∈ path.head?, x ∈ order) : ¬ Acyclic order deps := by
  intro hacyclic
  match path, h with
  | [], h => exact absurd h.length (by simp)
  | [x], h => exact absurd h.length (by simp)
  | x :: d :: rest, h =>
    have hlast : some x = (d :: rest).getLast? := by
      rw [← List.getLast?_cons_cons (a := x)]
      exact h.ends
    obtain ⟨hd, hchain⟩ := List.isChain_cons_cons.1 h.chain
    have hback := List.relationReflTransGen_of_exists_isChain_cons rest hchain
      (b := x) (by rw [← Option.some_inj, hlast, List.getLast?_eq_getLast_of_ne_nil])
    exact hacyclic x (hin x rfl) (Relation.TransGen.head' hd hback)

omit [DecidableEq κ] in
theorem Closed.mem_of_head {path : List κ} (h : Closed deps path)
    (hclosed : ∀ x ∈ order, ∀ d ∈ deps x, d ∈ order) (hin : ∀ x ∈ path.head?, x ∈ order) :
    ∀ x ∈ path, x ∈ order :=
  h.chain.induction (fun x => x ∈ order) path (fun x d hd hx => hclosed x hx d hd)
    fun hne => hin _ (List.head?_eq_some_head hne)

/-- The search finds no cycle if and only if there is none. -/
theorem search_ok_iff (hclosed : ∀ x ∈ order, ∀ d ∈ deps x, d ∈ order) :
    (∃ color', search order deps = .ok color') ↔ Acyclic order deps := by
  refine ⟨fun ⟨color', hs⟩ => fun x hx => not_transGen_of_acc (search_spec hs x hx),
    fun hacyclic => ?_⟩
  cases hs : search order deps with
  | ok color' => exact ⟨color', rfl⟩
  | error stop =>
    cases stop with
    | missing x => exact absurd hs (search_ne_missing hclosed)
    | cycle path =>
      obtain ⟨hpath, hin⟩ := search_cycle hs
      exact absurd hacyclic (hpath.not_acyclic hin)

omit [DecidableEq κ] in
/-- Where every node is accessible, some node of every non-empty set depends on none of the set. -/
theorem exists_source (hacc : ∀ x ∈ order, Acc (fun d x => d ∈ deps x) x)
    (hclosed : ∀ x ∈ order, ∀ d ∈ deps x, d ∈ order) {P : κ → Prop} (hP : ∃ x ∈ order, P x) :
    ∃ x ∈ order, P x ∧ ∀ d ∈ deps x, ¬ P d := by
  obtain ⟨x, hx, hPx⟩ := hP
  induction hacc x hx with
  | intro x _ ih =>
    by_cases hd : ∃ d ∈ deps x, P d
    · obtain ⟨d, hd, hPd⟩ := hd
      exact ih d hd (hclosed x hx d hd) hPd
    · exact ⟨x, hx, hPx, fun d hd' hPd => hd ⟨d, hd', hPd⟩⟩

end CycleSearch
