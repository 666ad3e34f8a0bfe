import LinuxLearning.SampleBZ.Config
/-!
# Comments in a configuration

`nodeToDic` steps over the nodes that are no elements (`helper.py:42`, `:49`). `getTextFromNode` raises
`NotTextNodeError` at every node that is no text (`:18-22`), a comment as well; `nodeToDic` then reads the element as
a dictionary (`:57-60`).

A `Draft` is a document with the places where comments are inserted; `plain` is the document before, `commented` the
one after. Comments inside a text cut it into pieces.

* `replay` — a loop of `nodeToDic` is a sequence of updates (`scan_eq`); `agreeBut_replay` says when two sequences of
  updates with the same keys give the same dictionary;
* `Spared` — no comment stands directly in a text element whose entry is kept;
* `comments_law` — exactly these comments do not change what is read.
-/

namespace SampleBZ

/-- A document in which comments are inserted. -/
inductive Draft
  | element (nodeName : String) (attributes : List (String × String)) (childNodes : List Draft)
  /-- a text, in pieces: before each of the further pieces `n + 1` comments are inserted -/
  | text (nodeValue : String) (cuts : List (ℕ × String))
  /-- an inserted comment -/
  | comment
  /-- a comment that was there, a processing instruction, … -/
  | other

mutual

/-- The nodes a part of the draft stands for, with or without the inserted comments. -/
def Draft.nodes (inserted : Bool) : Draft → List Node
  | .element nodeName attributes childNodes => [.element nodeName attributes (Draft.nodesOf inserted childNodes)]
  | .text nodeValue cuts =>
    if inserted then .text nodeValue :: cuts.flatMap fun cut => List.replicate (cut.1 + 1) .other ++ [.text cut.2]
    else [.text (cuts.foldl (fun t cut => t ++ cut.2) nodeValue)]
  | .comment => if inserted then [.other] else []
  | .other => [.other]

def Draft.nodesOf (inserted : Bool) : List Draft → List Node
  | [] => []
  | d :: ds => d.nodes inserted ++ Draft.nodesOf inserted ds

end

/-- The document before the comments are inserted. -/
def plain (ds : List Draft) : Node := .document (Draft.nodesOf false ds)

/-- The document with the comments. -/
def commented (ds : List Draft) : Node := .document (Draft.nodesOf true ds)

def Draft.isElement : Draft → Bool
  | .element .. => true
  | _ => false

/-- A text, before the comments are inserted. -/
def Draft.isText : Draft → Bool
  | .text .. | .comment => true
  | _ => false

/-- No comment is inserted here. -/
def Draft.untouched : Draft → Bool
  | .text _ cuts => cuts.isEmpty
  | .comment => false
  | _ => true

/-- The key of the entry that an element writes: an element with `multiple="true"` and no elements in it writes
none. -/
def Draft.key? : Draft → Option String
  | .element nodeName attributes childNodes =>
    if getAttribute attributes "multiple" = "true" ∧ childNodes.any Draft.isElement = false then none
    else some nodeName
  | _ => none

/-- One of `ds`, the later nodes, writes the same key again. -/
def Draft.Replaced (d : Draft) (ds : List Draft) : Prop :=
  ∃ key, d.key? = some key ∧ key ∈ ds.filterMap Draft.key?

mutual

/-- The entries that are kept are spared. -/
def Spared : List Draft → Prop
  | [] => True
  | d :: ds => (d.Replaced ds ∨ SparedEntry d) ∧ Spared ds

/-- No comment stands in a text, here and in the entries inside. -/
def SparedEntry : Draft → Prop
  | .element _ attributes childNodes =>
    if getAttribute attributes "multiple" = "true" then SparedItems childNodes
    else if childNodes.all Draft.isText then childNodes.all Draft.untouched = true
    else Spared childNodes
  | _ => True

def SparedItems : List Draft → Prop
  | [] => True
  | d :: ds => SparedItem d ∧ SparedItems ds

/-- An element of a list is a dictionary, whatever is in it. -/
def SparedItem : Draft → Prop
  | .element _ _ childNodes => Spared childNodes
  | _ => True

end

/-! ## Sequences of updates -/

variable {dic dic' es es' : Dic} {key : String} {value value' : Value} {keys : List String} {ns : List Node}

def replay (dic es : Dic) : Dic := es.foldl (fun dic e => update dic e.1 e.2) dic

theorem replay_cons (dic : Dic) (e : String × Value) (es : Dic) :
    replay dic (e :: es) = replay (update dic e.1 e.2) es := rfl

/-- The same keys with the same values, but for the values of `keys`. -/
def AgreeBut (keys : List String) (dic dic' : Dic) : Prop :=
  List.Forall₂ (fun e e' => e.1 = e'.1 ∧ (e.1 ∈ keys ∨ e.2 = e'.2)) dic dic'

/-- The last values of each key are the same; the keys are taken to be. -/
def LastAgree : Dic → Dic → Prop
  | e :: es, e' :: es' => (e.1 ∈ es.map Prod.fst ∨ e.2 = e'.2) ∧ LastAgree es es'
  | _, _ => True

theorem agreeBut_nil : AgreeBut [] dic dic' ↔ dic = dic' := by
  have hpair : ∀ e e' : String × Value, (e.1 = e'.1 ∧ (e.1 ∈ ([] : List String) ∨ e.2 = e'.2)) ↔ e = e' := by
    intro e e'
    rw [Prod.ext_iff]
    simp
  unfold AgreeBut
  simp only [hpair]
  exact List.forall₂_eq_eq_eq ▸ Iff.rfl

theorem keys_update (h : dic.map Prod.fst = dic'.map Prod.fst) (key : String) (value value' : Value) :
    (update dic key value).map Prod.fst = (update dic' key value').map Prod.fst := by
  have hkeep : ∀ (d : Dic) (v : Value),
      (d.map fun e => if e.1 = key then (key, v) else e).map Prod.fst = d.map Prod.fst := by
    intro d v
    rw [List.map_map]
    apply List.map_congr_left
    intro e _
    by_cases he : e.1 = key
    · simp [he]
    · simp [he]
  unfold update
  rw [← h]
  by_cases hkey : key ∈ dic.map Prod.fst
  · rw [if_pos hkey, if_pos hkey, hkeep, hkeep, h]
  · rw [if_neg hkey, if_neg hkey, List.map_append, List.map_append, h]
    rfl

/-- Two values written over the one of a key. -/
theorem agreeBut_map (h : dic.map Prod.fst = dic'.map Prod.fst) :
    AgreeBut keys (dic.map fun e => if e.1 = key then (key, value) else e)
        (dic'.map fun e => if e.1 = key then (key, value') else e) ↔
      AgreeBut (key :: keys) dic dic' ∧ (key ∈ dic.map Prod.fst → key ∈ keys ∨ value = value') := by
  induction dic generalizing dic' with
  | nil =>
    obtain rfl : dic' = [] := by simpa using h.symm
    simp [AgreeBut]
  | cons e dic ih =>
    cases dic' with
    | nil => simp at h
    | cons e' dic' =>
      rw [List.map_cons, List.map_cons, List.cons.injEq] at h
      obtain ⟨hkey, hrest⟩ := h
      have ih := ih hrest
      unfold AgreeBut at ih ⊢
      rw [List.map_cons, List.map_cons, List.forall₂_cons, List.forall₂_cons, ih, ← hkey]
      by_cases he : e.1 = key
      · simp only [he, if_true, List.map_cons, List.mem_cons, true_or, and_true, true_and, true_implies]
        constructor
        · rintro ⟨hvalue, hentries, -⟩
          exact ⟨hentries, hvalue⟩
        · rintro ⟨hentries, hvalue⟩
          exact ⟨hvalue, hentries, fun _ => hvalue⟩
      · have hne : key ≠ e.1 := fun heq => he heq.symm
        simp only [he, if_false, List.map_cons, List.mem_cons, false_or, hne, ← hkey, and_assoc]

/-- Two values of a new key. -/
theorem agreeBut_concat (h : dic.map Prod.fst = dic'.map Prod.fst) (hkey : key ∉ dic.map Prod.fst) :
    AgreeBut keys (dic ++ [(key, value)]) (dic' ++ [(key, value')]) ↔
      AgreeBut (key :: keys) dic dic' ∧ (key ∈ keys ∨ value = value') := by
  induction dic generalizing dic' with
  | nil =>
    obtain rfl : dic' = [] := by simpa using h.symm
    simp [AgreeBut]
  | cons e dic ih =>
    cases dic' with
    | nil => simp at h
    | cons e' dic' =>
      rw [List.map_cons, List.map_cons, List.cons.injEq] at h
      rw [List.map_cons, List.mem_cons, not_or] at hkey
      have ih := ih h.2 hkey.2
      have hne : e.1 ≠ key := fun heq => hkey.1 heq.symm
      unfold AgreeBut at ih ⊢
      rw [List.cons_append, List.cons_append, List.forall₂_cons, List.forall₂_cons, ih, List.mem_cons]
      simp only [hne, false_or, and_assoc]

theorem agreeBut_update (h : dic.map Prod.fst = dic'.map Prod.fst) :
    AgreeBut keys (update dic key value) (update dic' key value') ↔
      AgreeBut (key :: keys) dic dic' ∧ (key ∈ keys ∨ value = value') := by
  unfold update
  rw [← h]
  by_cases hkey : key ∈ dic.map Prod.fst
  · rw [if_pos hkey, if_pos hkey, agreeBut_map h]
    simp [hkey]
  · rw [if_neg hkey, if_neg hkey]
    exact agreeBut_concat h hkey

/-- **Updates with the same keys** give the same dictionary if and only if the values agree that are not written
over. -/
theorem replay_eq_iff (h : dic.map Prod.fst = dic'.map Prod.fst) (hes : es.map Prod.fst = es'.map Prod.fst) :
    replay dic es = replay dic' es' ↔ AgreeBut (es.map Prod.fst) dic dic' ∧ LastAgree es es' := by
  induction es generalizing dic dic' es' with
  | nil =>
    obtain rfl : es' = [] := by simpa using hes.symm
    simp [replay, LastAgree, agreeBut_nil]
  | cons e es ih =>
    cases es' with
    | nil => simp at hes
    | cons e' es' =>
      rw [List.map_cons, List.map_cons, List.cons.injEq] at hes
      obtain ⟨hkey, hrest⟩ := hes
      rw [replay_cons, replay_cons, ← hkey, ih (keys_update h e.1 e.2 e'.2) hrest, agreeBut_update h, and_assoc]
      rfl

/-! ## What the loop of `nodeToDic` writes -/

/-- The dictionaries of the elements among `ns`. -/
def items (ns : List Node) : List Dic := (ns.filter Node.isElement).map nodeToDic

/-- The entry that one round of the loop writes. -/
def written? : Node → Option (String × Value)
  | .element nodeName attributes childNodes =>
    if getAttribute attributes "multiple" = "true" then
      if items childNodes = [] then none else some (nodeName, .list (items childNodes))
    else match gatherText "" childNodes with
      | .error _ => some (nodeName, .dic (scan [] childNodes))
      | .ok text => some (nodeName, .str text)
  | _ => none

/-- The list is merged once for each of its entries; the last time counts. -/
theorem gather_eq (nodeName : String) (dic : Dic) (l : List Dic) (cs : List Node) :
    gather nodeName dic l cs = if items cs = [] then dic else update dic nodeName (.list (l ++ items cs)) := by
  induction cs generalizing dic l with
  | nil => simp [gather, items]
  | cons c cs ih =>
    unfold gather
    cases hc : c.isElement with
    | false =>
      have hitems : items (c :: cs) = items cs := by simp [items, hc]
      rw [if_neg Bool.false_ne_true, hitems, ih]
    | true =>
      have hitems : items (c :: cs) = nodeToDic c :: items cs := by simp [items, hc]
      rw [if_pos rfl, hitems, ih, if_neg (List.cons_ne_nil _ _), update_update, List.append_assoc]
      by_cases hlast : items cs = []
      · rw [if_pos hlast, hlast]
      · rw [if_neg hlast]
        rfl

section

variable {nodeName text : String} {attributes : List (String × String)} {childNodes : List Node}

theorem written?_list (hattr : getAttribute attributes "multiple" = "true") :
    written? (.element nodeName attributes childNodes) =
      if items childNodes = [] then none else some (nodeName, .list (items childNodes)) :=
  if_pos hattr

theorem written?_dic (hattr : getAttribute attributes "multiple" ≠ "true")
    (htext : gatherText "" childNodes = .error .raised) :
    written? (.element nodeName attributes childNodes) = some (nodeName, .dic (scan [] childNodes)) := by
  simp only [written?, hattr, if_false, htext]

theorem written?_str (hattr : getAttribute attributes "multiple" ≠ "true")
    (htext : gatherText "" childNodes = .ok text) :
    written? (.element nodeName attributes childNodes) = some (nodeName, .str text) := by
  simp only [written?, hattr, if_false, htext]

end

theorem merge_eq (dic : Dic) (n : Node) : merge dic n = replay dic (written? n).toList := by
  cases n with
  | element nodeName attributes childNodes =>
    by_cases hattr : getAttribute attributes "multiple" = "true"
    · rw [merge_items hattr, written?_list hattr, gather_eq, List.nil_append]
      by_cases hitems : items childNodes = []
      · rw [if_pos hitems, if_pos hitems]
        rfl
      · rw [if_neg hitems, if_neg hitems]
        rfl
    · cases htext : gatherText "" childNodes with
      | error e =>
        rw [merge_entries hattr htext, written?_dic hattr htext]
        rfl
      | ok text =>
        have hraised : getTextFromNode (.element nodeName attributes childNodes) = .ok text := htext
        unfold merge
        rw [if_neg hattr, hraised, written?_str hattr htext]
        rfl
  | text | other | document => rfl

/-- **The loop** is the sequence of the updates of its rounds. -/
theorem scan_eq (dic : Dic) (ns : List Node) : scan dic ns = replay dic (ns.filterMap written?) := by
  induction ns generalizing dic with
  | nil => rfl
  | cons n ns ih =>
    rw [scan_cons, ih, merge_eq]
    cases hn : written? n with
    | none => rw [List.filterMap_cons_none hn]; rfl
    | some e => rw [List.filterMap_cons_some hn]; rfl

/-! ## Texts -/

def Node.isText : Node → Bool
  | .text _ => true
  | _ => false

theorem gatherText_ok (h : ∀ n ∈ ns, n.isText = true) (t : String) : ∃ text, gatherText t ns = .ok text := by
  induction ns generalizing t with
  | nil => exact ⟨t, rfl⟩
  | cons n ns ih =>
    have hn := h n List.mem_cons_self
    cases n with
    | text nodeValue => exact ih (fun n hn => h n (List.mem_cons_of_mem _ hn)) (t ++ nodeValue)
    | element | other | document => cases hn

theorem gatherText_raised (h : ¬ ∀ n ∈ ns, n.isText = true) (t : String) : gatherText t ns = .error .raised := by
  induction ns generalizing t with
  | nil => exact absurd (by simp) h
  | cons n ns ih =>
    cases n with
    | text nodeValue =>
      apply ih
      intro hns
      apply h
      rintro n hn
      rcases List.mem_cons.1 hn with rfl | hn
      · rfl
      · exact hns n hn
    | element | other | document => rfl

/-! ## The draft -/

variable {d : Draft} {ds cs : List Draft} {inserted : Bool}

/-- What a part of the draft leaves of a text. -/
theorem isText_nodes : (∀ n ∈ d.nodes inserted, n.isText = true) ↔
    d.isText = true ∧ (inserted = true → d.untouched = true) := by
  cases d with
  | element | other => cases inserted <;> simp [Draft.nodes, Draft.isText, Node.isText]
  | comment => cases inserted <;> simp [Draft.nodes, Draft.isText, Draft.untouched, Node.isText]
  | text nodeValue cuts =>
    cases inserted with
    | false => simp [Draft.nodes, Draft.isText, Node.isText]
    | true =>
      cases cuts with
      | nil => simp [Draft.nodes, Draft.isText, Draft.untouched, Node.isText]
      | cons cut cuts => simp [Draft.nodes, Draft.isText, Draft.untouched, Node.isText, List.replicate_succ]

theorem isText_nodesOf : (∀ n ∈ Draft.nodesOf inserted ds, n.isText = true) ↔
    ds.all Draft.isText = true ∧ (inserted = true → ds.all Draft.untouched = true) := by
  induction ds with
  | nil => simp [Draft.nodesOf]
  | cons d ds ih =>
    unfold Draft.nodesOf
    rw [List.forall_mem_append, isText_nodes, ih, List.all_cons, List.all_cons, Bool.and_eq_true, Bool.and_eq_true]
    tauto

/-- A text without comments in it stays as it is. -/
theorem nodesOf_untouched (htext : ds.all Draft.isText = true) (h : ds.all Draft.untouched = true) :
    Draft.nodesOf true ds = Draft.nodesOf false ds := by
  induction ds with
  | nil => rfl
  | cons d ds ih =>
    rw [List.all_cons, Bool.and_eq_true] at htext h
    unfold Draft.nodesOf
    rw [ih htext.2 h.2]
    congr 1
    cases d with
    | text nodeValue cuts =>
      obtain rfl : cuts = [] := by simpa [Draft.untouched] using h.1
      rfl
    | comment => cases h.1
    | element | other => cases htext.1

/-- The entry of one part. -/
def Draft.written? (inserted : Bool) : Draft → Option (String × Value)
  | .element nodeName attributes childNodes =>
    SampleBZ.written? (.element nodeName attributes (Draft.nodesOf inserted childNodes))
  | _ => none

def entries (inserted : Bool) (ds : List Draft) : Dic := ds.filterMap (Draft.written? inserted)

/-- No part turns into elements or out of them. -/
theorem isElement_nodes {n : Node} (hn : n ∈ d.nodes inserted) : n.isElement = d.isElement := by
  cases d with
  | element nodeName attributes childNodes =>
    rw [Draft.nodes, List.mem_singleton] at hn
    subst hn
    rfl
  | text nodeValue cuts =>
    cases inserted with
    | false =>
      rw [Draft.nodes, if_neg Bool.false_ne_true, List.mem_singleton] at hn
      subst hn
      rfl
    | true =>
      rw [Draft.nodes, if_pos rfl, List.mem_cons, List.mem_flatMap] at hn
      rcases hn with rfl | ⟨cut, -, hn⟩
      · rfl
      · rw [List.mem_append, List.mem_replicate, List.mem_singleton] at hn
        rcases hn with ⟨-, rfl⟩ | rfl
        · rfl
        · rfl
  | comment =>
    cases inserted with
    | false => cases hn
    | true =>
      obtain rfl := List.mem_singleton.1 hn
      rfl
  | other =>
    obtain rfl := List.mem_singleton.1 hn
    rfl

theorem written?_of_not_element {n : Node} (h : n.isElement = false) : written? n = none := by
  cases n with
  | element => cases h
  | text | other | document => rfl

theorem written?_nodes (inserted : Bool) (d : Draft) :
    (d.nodes inserted).filterMap written? = (d.written? inserted).toList := by
  cases d with
  | element nodeName attributes childNodes =>
    rw [Draft.nodes, Draft.written?]
    cases h : written? (.element nodeName attributes (Draft.nodesOf inserted childNodes)) with
    | none => rw [List.filterMap_cons_none h]; rfl
    | some e => rw [List.filterMap_cons_some h]; rfl
  | text | comment | other =>
    exact List.filterMap_eq_nil_iff.2 fun n hn => written?_of_not_element (isElement_nodes hn)

theorem filterMap_written?_nodesOf (inserted : Bool) (ds : List Draft) :
    (Draft.nodesOf inserted ds).filterMap written? = entries inserted ds := by
  induction ds with
  | nil => rfl
  | cons d ds ih =>
    unfold Draft.nodesOf entries
    rw [List.filterMap_append, written?_nodes, ih, List.filterMap_cons]
    cases d.written? inserted with
    | none => rfl
    | some e => rfl

/-- **What is read of a draft.** -/
theorem scan_nodesOf (inserted : Bool) (dic : Dic) (ds : List Draft) :
    scan dic (Draft.nodesOf inserted ds) = replay dic (entries inserted ds) := by
  rw [scan_eq, filterMap_written?_nodesOf]

/-- The dictionary of an element in a list. -/
def Draft.item? (inserted : Bool) : Draft → Option Dic
  | .element _ _ childNodes => some (scan [] (Draft.nodesOf inserted childNodes))
  | _ => none

theorem items_nodesOf (inserted : Bool) (ds : List Draft) :
    items (Draft.nodesOf inserted ds) = ds.filterMap (Draft.item? inserted) := by
  induction ds with
  | nil => rfl
  | cons d ds ih =>
    have happend : items (Draft.nodesOf inserted (d :: ds)) =
        items (d.nodes inserted) ++ items (Draft.nodesOf inserted ds) := by
      simp only [items, Draft.nodesOf, List.filter_append, List.map_append]
    rw [happend, ih, List.filterMap_cons]
    cases d with
    | element nodeName attributes childNodes => rfl
    | text | comment | other =>
      have hnil : ∀ ns : List Node, (∀ n ∈ ns, n.isElement = false) → items ns = [] := by
        intro ns h
        rw [items, List.filter_eq_nil_iff.2 (by simpa using h), List.map_nil]
      rw [hnil _ fun n hn => (isElement_nodes hn).trans rfl]
      rfl

/-- The comments leave the keys alone. -/
theorem key_written? (inserted : Bool) (d : Draft) : (d.written? inserted).map Prod.fst = d.key? := by
  cases d with
  | element nodeName attributes childNodes =>
    rw [Draft.written?, Draft.key?]
    by_cases hattr : getAttribute attributes "multiple" = "true"
    · have hnil : items (Draft.nodesOf inserted childNodes) = [] ↔ childNodes.any Draft.isElement = false := by
        rw [items_nodesOf, List.filterMap_eq_nil_iff, List.any_eq_false]
        apply forall₂_congr
        intro c _
        cases c with
        | element | text | comment | other => simp [Draft.item?, Draft.isElement]
      rw [written?_list hattr]
      by_cases hitems : childNodes.any Draft.isElement = false
      · rw [if_pos (hnil.2 hitems), if_pos ⟨hattr, hitems⟩]
        rfl
      · rw [if_neg (mt hnil.1 hitems), if_neg fun h => hitems h.2]
        rfl
    · rw [if_neg fun h => hattr h.1]
      cases htext : gatherText "" (Draft.nodesOf inserted childNodes) with
      | error e =>
        rw [written?_dic hattr htext]
        rfl
      | ok text =>
        rw [written?_str hattr htext]
        rfl
  | text | comment | other => rfl

theorem keys_entries (inserted : Bool) (ds : List Draft) :
    (entries inserted ds).map Prod.fst = ds.filterMap Draft.key? := by
  unfold entries
  rw [List.map_filterMap]
  exact List.filterMap_congr fun d _ => key_written? inserted d

/-! ## The law -/

/-- The first part of a draft and the rest. -/
theorem lastAgree_cons : LastAgree (entries false (d :: ds)) (entries true (d :: ds)) ↔
    (d.Replaced ds ∨ d.written? false = d.written? true) ∧ LastAgree (entries false ds) (entries true ds) := by
  have hplain := key_written? false d
  have hcommented := key_written? true d
  unfold Draft.Replaced
  cases hkey : d.key? with
  | none =>
    rw [hkey, Option.map_eq_none_iff] at hplain hcommented
    have hentries : ∀ b, d.written? b = none → entries b (d :: ds) = entries b ds :=
      fun b h => List.filterMap_cons_none h
    rw [hentries _ hplain, hentries _ hcommented, hplain, hcommented]
    simp
  | some key =>
    rw [hkey] at hplain hcommented
    obtain ⟨⟨key', value⟩, hentry, hkey'⟩ := Option.map_eq_some_iff.1 hplain
    obtain ⟨⟨key'', value'⟩, hentry', hkey''⟩ := Option.map_eq_some_iff.1 hcommented
    obtain rfl : key' = key := hkey'
    obtain rfl : key'' = key' := hkey''
    have hentries : ∀ b e, d.written? b = some e → entries b (d :: ds) = e :: entries b ds :=
      fun b e h => List.filterMap_cons_some h
    rw [hentries _ _ hentry, hentries _ _ hentry', hentry, hentry', LastAgree, keys_entries]
    simp

/-- The dictionary of a draft is the same if and only if the last values are. -/
theorem scan_eq_iff (ds : List Draft) :
    scan [] (Draft.nodesOf false ds) = scan [] (Draft.nodesOf true ds) ↔
      LastAgree (entries false ds) (entries true ds) := by
  rw [scan_nodesOf, scan_nodesOf, replay_eq_iff rfl (by rw [keys_entries, keys_entries])]
  simp [AgreeBut]

/-- A text with a comment in it is read as a dictionary. -/
theorem text_iff {nodeName : String} {attributes : List (String × String)}
    (hattr : getAttribute attributes "multiple" ≠ "true") (htext : cs.all Draft.isText = true) :
    (Draft.element nodeName attributes cs).written? false = (Draft.element nodeName attributes cs).written? true ↔
      cs.all Draft.untouched = true := by
  rw [Draft.written?, Draft.written?]
  constructor
  · intro heq
    by_contra hcomment
    have hplain : ∀ n ∈ Draft.nodesOf false cs, n.isText = true := isText_nodesOf.2 ⟨htext, nofun⟩
    have hcommented : ¬ ∀ n ∈ Draft.nodesOf true cs, n.isText = true :=
      fun h => hcomment ((isText_nodesOf.1 h).2 rfl)
    obtain ⟨text, hok⟩ := gatherText_ok hplain ""
    rw [written?_str hattr hok, written?_dic hattr (gatherText_raised hcommented "")] at heq
    simp at heq
  · intro huntouched
    rw [nodesOf_untouched htext huntouched]

/-- Without a comment in a text, an element is a dictionary with comments and without. -/
theorem dic_iff {nodeName : String} {attributes : List (String × String)}
    (hattr : getAttribute attributes "multiple" ≠ "true") (htext : ¬ cs.all Draft.isText = true) :
    (Draft.element nodeName attributes cs).written? false = (Draft.element nodeName attributes cs).written? true ↔
      LastAgree (entries false cs) (entries true cs) := by
  have hraised : ∀ b, gatherText "" (Draft.nodesOf b cs) = .error .raised :=
    fun b => gatherText_raised (fun h => htext (isText_nodesOf.1 h).1) ""
  rw [Draft.written?, Draft.written?, written?_dic hattr (hraised false), written?_dic hattr (hraised true),
    ← scan_eq_iff]
  simp

theorem list_iff {nodeName : String} {attributes : List (String × String)}
    (hattr : getAttribute attributes "multiple" = "true") :
    (Draft.element nodeName attributes cs).written? false = (Draft.element nodeName attributes cs).written? true ↔
      cs.filterMap (Draft.item? false) = cs.filterMap (Draft.item? true) := by
  rw [Draft.written?, Draft.written?, written?_list hattr, written?_list hattr, items_nodesOf, items_nodesOf]
  by_cases hplain : cs.filterMap (Draft.item? false) = []
  · by_cases hcommented : cs.filterMap (Draft.item? true) = []
    · simp [hplain, hcommented]
    · simp [hplain, hcommented]
  · by_cases hcommented : cs.filterMap (Draft.item? true) = []
    · simp [hplain, hcommented]
    · simp [hplain, hcommented]

mutual

theorem lastAgree_iff : ∀ ds : List Draft, LastAgree (entries false ds) (entries true ds) ↔ Spared ds
  | [] => by simp [entries, LastAgree, Spared]
  | d :: ds => by
    have ih := lastAgree_iff ds
    have hentry := written?_iff d
    rw [lastAgree_cons, Spared, ih, hentry]

theorem written?_iff : ∀ d : Draft, d.written? false = d.written? true ↔ SparedEntry d
  | .element nodeName attributes childNodes => by
    have ih := lastAgree_iff childNodes
    have ihs := items_iff childNodes
    unfold SparedEntry
    by_cases hattr : getAttribute attributes "multiple" = "true"
    · rw [if_pos hattr, list_iff hattr, ihs]
    · rw [if_neg hattr]
      by_cases htext : childNodes.all Draft.isText = true
      · rw [if_pos htext, text_iff hattr htext]
      · rw [if_neg htext, dic_iff hattr htext, ih]
  | .text _ _ => by simp [Draft.written?, SparedEntry]
  | .comment => by simp [Draft.written?, SparedEntry]
  | .other => by simp [Draft.written?, SparedEntry]

theorem items_iff : ∀ ds : List Draft,
    ds.filterMap (Draft.item? false) = ds.filterMap (Draft.item? true) ↔ SparedItems ds
  | [] => by simp [SparedItems]
  | .element nodeName attributes childNodes :: ds => by
    have ih := lastAgree_iff childNodes
    have ihs := items_iff ds
    have hcons : ∀ b, (Draft.element nodeName attributes childNodes :: ds).filterMap (Draft.item? b) =
        scan [] (Draft.nodesOf b childNodes) :: ds.filterMap (Draft.item? b) := fun b => rfl
    rw [SparedItems, SparedItem, ← ih, ← ihs, ← scan_eq_iff, hcons, hcons, List.cons.injEq]
  | .text _ _ :: ds => by
    simp only [SparedItems, SparedItem, true_and]
    exact items_iff ds
  | .comment :: ds => by
    simp only [SparedItems, SparedItem, true_and]
    exact items_iff ds
  | .other :: ds => by
    simp only [SparedItems, SparedItem, true_and]
    exact items_iff ds

end

/-- **Comments.** A document is read as the same dictionary with comments inserted if and only if none of them stands
directly in a text element whose entry is kept. -/
theorem comments_law (ds : List Draft) : nodeToDic (commented ds) = nodeToDic (plain ds) ↔ Spared ds := by
  rw [← lastAgree_iff, ← scan_eq_iff]
  exact eq_comm

/-- `<Config><Name>My Config File<!-- … --></Name></Config>` -/
def commentedName : List Draft :=
  [.element "Config" [] [.element "Name" [] [.text "My Config File" [], .comment]]]

/-- The text is lost. -/
theorem comment_in_text :
    nodeToDic (plain commentedName) = [("Config", .dic [("Name", .str "My Config File")])] ∧
      nodeToDic (commented commentedName) = [("Config", .dic [("Name", .dic [])])] ∧
      nodeToDic (commented commentedName) ≠ nodeToDic (plain commentedName) := by
  have hplain : nodeToDic (plain commentedName) = [("Config", .dic [("Name", .str "My Config File")])] := rfl
  have hcommented : nodeToDic (commented commentedName) = [("Config", .dic [("Name", .dic [])])] := rfl
  refine ⟨hplain, hcommented, ?_⟩
  rw [hplain, hcommented]
  simp

end SampleBZ
