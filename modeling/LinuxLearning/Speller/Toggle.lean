import LinuxLearning.Lib.Rose
import LinuxLearning.Speller.Platform
/-!
# The search for the toggle button

`findToggleBtn` climbs from the speller to the root of the tree and searches it from there. `checkChild` goes down
depth-first, looks at the name of a widget before it goes below it, and does not go below an invisible one.

* `Toggle` — a widget that the search may return;
* `checkChild_eq` — `checkChild` is the depth-first search of a tree with ordered children;
* `toggleBtn_law` — a visible speller with a parent gets the first `Toggle` in pre-order, and none only if there is
  none.
-/

namespace Speller

namespace Widget

mutual

/-- The tree of the names and the visibility flags. -/
def tree : Widget → Rose (String × Bool)
  | mk name visible children => .node (name, visible) (trees children)

def trees : List Widget → List (Rose (String × Bool))
  | [] => []
  | w :: ws => w.tree :: trees ws

end

/-- `GetWidgetName(pWidget) == "ToggleLayout"`. -/
def Named (label : String × Bool) : Prop := label.1 = "ToggleLayout"

/-- `IsVisible(pParent)`. -/
def Visible (label : String × Bool) : Prop := label.2 = true

instance : DecidablePred Named := fun label => inferInstanceAs (Decidable (label.1 = "ToggleLayout"))

instance : DecidablePred Visible := fun label => inferInstanceAs (Decidable (label.2 = true))

theorem getElem?_trees (ws : List Widget) (i : ℕ) : (trees ws)[i]? = ws[i]?.map tree := by
  induction ws generalizing i with
  | nil => rfl
  | cons w ws ih =>
    cases i with
    | zero => rfl
    | succ i => exact ih i

@[simp] theorem label_tree (w : Widget) : w.tree.label = (w.name, w.visible) := by
  cases w
  rfl

@[simp] theorem children_tree (w : Widget) : w.tree.children = trees w.children := by
  cases w
  rfl

theorem sub_tree (w : Widget) (way : List ℕ) : w.tree.sub way = (w.sub way).map tree := by
  induction way generalizing w with
  | nil => rw [Rose.sub, sub, Option.map_some]
  | cons i way ih =>
    rw [Rose.sub, sub, children_tree, getElem?_trees]
    cases w.children[i]? with
    | none => rfl
    | some child => exact ih child

mutual

/-- **`checkChild` is depth-first search.** -/
theorem checkChild_eq : ∀ w : Widget, w.checkChild = w.tree.search Named Visible
  | mk name visible children => by
    rw [checkChild, tree, Rose.search, checkChildren_eq 0 children]
    rfl

theorem checkChildren_eq (i : ℕ) : ∀ ws : List Widget,
    checkChildren i ws = Rose.searchFrom Named Visible i (trees ws)
  | [] => rfl
  | w :: ws => by
    rw [checkChildren, trees, Rose.searchFrom, checkChild_eq w, checkChildren_eq (i + 1) ws, label_tree]
    rfl

end

/-- A widget below the root that is named `ToggleLayout`, all widgets above it visible. -/
structure Toggle (root : Widget) (way : List ℕ) : Prop where
  below : way ≠ []
  named : ∃ w, root.sub way = some w ∧ w.name = "ToggleLayout"
  above : ∀ up, up <+: way → up ≠ way → ∃ w, root.sub up = some w ∧ w.visible = true

variable {root : Widget} {way : List ℕ}

theorem exists_sub_tree {P : String × Bool → Prop} :
    (∃ s, root.tree.sub way = some s ∧ P s.label) ↔ ∃ w, root.sub way = some w ∧ P (w.name, w.visible) := by
  simp [sub_tree]

theorem toggle_iff_hit : root.Toggle way ↔ root.tree.Hit Named Visible way := by
  constructor
  · rintro ⟨below, named, above⟩
    exact ⟨below, exists_sub_tree.2 named, fun up hup hne => exists_sub_tree.2 (above up hup hne)⟩
  · rintro ⟨below, here, above⟩
    exact ⟨below, exists_sub_tree.1 here, fun up hup hne => exists_sub_tree.1 (above up hup hne)⟩

theorem checkChild_eq_some_iff : root.checkChild = some way ↔ root.tree.First root.Toggle way := by
  have htoggle : root.Toggle = root.tree.Hit Named Visible := funext fun _ => propext toggle_iff_hit
  rw [checkChild_eq, Rose.search_eq_some_iff, htoggle]

theorem checkChild_eq_none_iff : root.checkChild = none ↔ ∀ way, ¬ root.Toggle way := by
  rw [checkChild_eq, Rose.search_eq_none_iff]
  simp only [toggle_iff_hit]

/-- Pre-order on the tree is the lexicographic order of the ways. -/
theorem first_toggle_iff : root.tree.First root.Toggle way ↔ IsLeast {way | root.Toggle way} way :=
  Rose.first_iff_isLeast fun _ h => (toggle_iff_hit.1 h).mem_preorder

end Widget

/-- **The search for the toggle button.** A path is the way down, reversed. -/
theorem toggleBtn_law (screen : Screen) (hvisible : screen.self.visible = true)
    (hparent : getParentWidget screen.cself ≠ none) :
    (∀ path, findToggleBtn screen = some path ↔ screen.root.tree.First screen.root.Toggle path.reverse) ∧
      (findToggleBtn screen = none ↔ ∀ way, ¬ screen.root.Toggle way) := by
  have hcself : screen.cself ≠ [] := by
    intro h
    rw [h] at hparent
    exact hparent rfl
  have hfind : findToggleBtn screen = screen.root.checkChild.map List.reverse := by
    rw [findToggleBtn_eq, if_pos ⟨hvisible, hcself⟩]
  constructor
  · intro path
    rw [hfind, ← Widget.checkChild_eq_some_iff, Option.map_eq_some_iff]
    constructor
    · rintro ⟨way, hway, rfl⟩
      rw [List.reverse_reverse, hway]
    · exact fun h => ⟨path.reverse, h, List.reverse_reverse path⟩
  · rw [hfind, ← Widget.checkChild_eq_none_iff, Option.map_eq_none_iff]

/-- A `ToggleLayout` below a hidden panel, one in a panel beside the speller, and one right below the root. -/
def twoPanels : Screen where
  root := .mk "Root" true [.mk "Hidden" false [.mk "ToggleLayout" true []],
    .mk "Panel" true [.mk "Speller" true [], .mk "ToggleLayout" false []], .mk "ToggleLayout" true []]
  cself := [0, 1]
  self := .mk "Speller" true []
  present := by simp [Widget.sub, Widget.children]

/-- The second child of the second panel. -/
theorem toggleBtn_law_sample :
    findToggleBtn twoPanels = some [1, 1] ∧ twoPanels.root.tree.First twoPanels.root.Toggle [1, 1] := by
  have hfind : findToggleBtn twoPanels = some [1, 1] := by decide
  exact ⟨hfind, ((toggleBtn_law twoPanels rfl (by decide)).1 [1, 1]).1 hfind⟩

end Speller
