import Mathlib
/-!
# Configurations in XML

| here | there |
| --- | --- |
| `Node`                     | what `minidom` makes of a document: the nodes `nodeToDic` looks at |
| `getTextFromNode`          | `getTextFromNode` (`helper.py:11-23`) |
| `update`                   | `dic.update({n.nodeName: …})` |
| `nodeToDic`, `scan`, `merge`, `gather` | `nodeToDic` (`:26-65`): the function, its loop, the body of the loop, the inner loop |

A dictionary is the list of its entries in the order of insertion. With tabs at eight columns the `dic.update` of the
list (`:52`) is in the inner loop, after the `append`: a list is merged once for each of its entries, and one without
entries is not merged at all.

* `Writes` — the XML form of a configuration: a text element for a string, an element with child elements for a
  dictionary, one with `multiple="true"` for a list of dictionaries, white space between child elements;
* `keepFull` — a configuration without its empty lists;
* `nodeToDic_writes` — what is read back is `keepFull`;
* `round_trip` — it is the configuration itself if and only if no list in it is empty.
-/

namespace SampleBZ

/-- A node of the document. -/
inductive Node
  | element (nodeName : String) (attributes : List (String × String)) (childNodes : List Node)
  | text (nodeValue : String)
  /-- a comment, a processing instruction, … -/
  | other
  | document (childNodes : List Node)

def Node.childNodes : Node → List Node
  | .element _ _ childNodes => childNodes
  | .text _ => []
  | .other => []
  | .document childNodes => childNodes

/-- `n.nodeType == n.ELEMENT_NODE` -/
def Node.isElement : Node → Bool
  | .element .. => true
  | _ => false

/-- `n.getAttribute(name)`: the empty string where there is no such attribute. -/
def getAttribute (attributes : List (String × String)) (name : String) : String :=
  (attributes.lookup name).getD ""

inductive Value
  | str (text : String)
  | dic (entries : List (String × Value))
  | list (items : List (List (String × Value)))

abbrev Dic := List (String × Value)

inductive NotTextNodeError
  | raised
deriving DecidableEq, Repr

/-- The loop of `getTextFromNode`, `t` being gathered so far. -/
def gatherText (t : String) : List Node → Except NotTextNodeError String
  | [] => .ok t
  | n :: ns => match n with
    | .text nodeValue => gatherText (t ++ nodeValue) ns
    | _ => .error .raised

def getTextFromNode (node : Node) : Except NotTextNodeError String := gatherText "" node.childNodes

/-- `dic.update({key: value})`: the entry of the key is replaced, or there is a new one. -/
def update (dic : Dic) (key : String) (value : Value) : Dic :=
  if key ∈ dic.map Prod.fst then dic.map fun e => if e.1 = key then (key, value) else e
  else dic ++ [(key, value)]

mutual

def nodeToDic : Node → Dic
  | .element _ _ childNodes => scan [] childNodes
  | .text _ => []
  | .other => []
  | .document childNodes => scan [] childNodes

/-- `for n in node.childNodes` -/
def scan (dic : Dic) : List Node → Dic
  | [] => dic
  | n :: ns => scan (merge dic n) ns

/-- One round of the loop. -/
def merge (dic : Dic) : Node → Dic
  | .element nodeName attributes childNodes =>
    if getAttribute attributes "multiple" = "true" then gather nodeName dic [] childNodes
    else match getTextFromNode (.element nodeName attributes childNodes) with
      | .error _ => update dic nodeName (.dic (scan [] childNodes))
      | .ok text => update dic nodeName (.str text)
  | .text _ => dic
  | .other => dic
  | .document _ => dic

/-- `for c in n.childNodes`, `l` being the list so far. -/
def gather (nodeName : String) (dic : Dic) (l : List Dic) : List Node → Dic
  | [] => dic
  | c :: cs =>
    if c.isElement then
      gather nodeName (update dic nodeName (.list (l ++ [nodeToDic c]))) (l ++ [nodeToDic c]) cs
    else gather nodeName dic l cs

end

/-! ## Dictionaries -/

variable {dic entries : Dic} {items l : List Dic} {key : String} {value value' : Value} {ns : List Node}

theorem update_new (h : key ∉ dic.map Prod.fst) : update dic key value = dic ++ [(key, value)] := if_neg h

theorem mem_keys_update (dic : Dic) (key : String) (value : Value) : key ∈ (update dic key value).map Prod.fst := by
  unfold update
  by_cases h : key ∈ dic.map Prod.fst
  · rw [if_pos h]
    obtain ⟨e, he, rfl⟩ := List.mem_map.1 h
    rw [List.map_map, List.mem_map]
    exact ⟨e, he, by simp⟩
  · rw [if_neg h]
    simp

/-- The later update counts. -/
theorem update_update (dic : Dic) (key : String) (value value' : Value) :
    update (update dic key value) key value' = update dic key value' := by
  have hmem := mem_keys_update dic key value
  have hagain : update (update dic key value) key value' =
      (update dic key value).map fun e => if e.1 = key then (key, value') else e := if_pos hmem
  rw [hagain]
  unfold update
  by_cases h : key ∈ dic.map Prod.fst
  · rw [if_pos h, if_pos h, List.map_map]
    apply List.map_congr_left
    intro e _
    by_cases he : e.1 = key
    · simp [he]
    · simp [he]
  · rw [if_neg h, if_neg h, List.map_append]
    congr 1
    · conv_rhs => rw [← List.map_id dic]
      apply List.map_congr_left
      intro e he
      have hne : e.1 ≠ key := by
        rintro rfl
        exact h (List.mem_map_of_mem he)
      rw [if_neg hne, id]
    · simp

/-! ## Configurations without empty lists -/

mutual

/-- The entries without those that are empty lists, here and in all dictionaries inside. -/
def keepFull : Dic → Dic
  | [] => []
  | (key, value) :: entries => keepValue key value ++ keepFull entries

/-- The entry of one value: none for an empty list. -/
def keepValue (key : String) : Value → Dic
  | .str text => [(key, .str text)]
  | .dic entries => [(key, .dic (keepFull entries))]
  | .list [] => []
  | .list (item :: items) => [(key, .list (keepFull item :: keepItems items))]

def keepItems : List Dic → List Dic
  | [] => []
  | item :: items => keepFull item :: keepItems items

end

mutual

/-- No list of the configuration is empty. -/
def Full : Dic → Prop
  | [] => True
  | (_, value) :: entries => FullValue value ∧ Full entries

def FullValue : Value → Prop
  | .str _ => True
  | .dic entries => Full entries
  | .list items => items ≠ [] ∧ FullItems items

def FullItems : List Dic → Prop
  | [] => True
  | item :: items => Full item ∧ FullItems items

end

/-- At most one entry comes of one. -/
theorem keepValue_cases (key : String) (value : Value) :
    keepValue key value = [] ∨ ∃ kept, keepValue key value = [(key, kept)] := by
  cases value with
  | str text => exact .inr ⟨_, rfl⟩
  | dic entries => exact .inr ⟨_, rfl⟩
  | list items =>
    cases items with
    | nil => exact .inl rfl
    | cons item items => exact .inr ⟨_, rfl⟩

theorem length_keepFull_le : ∀ entries : Dic, (keepFull entries).length ≤ entries.length
  | [] => le_rfl
  | (key, value) :: entries => by
    have ih := length_keepFull_le entries
    unfold keepFull
    rw [List.length_append, List.length_cons]
    rcases keepValue_cases key value with h | ⟨kept, h⟩
    · rw [h, List.length_nil]
      omega
    · rw [h, List.length_singleton]
      omega

mutual

/-- A configuration is its own full part if no list in it is empty. -/
theorem keepFull_eq_iff : ∀ entries : Dic, keepFull entries = entries ↔ Full entries
  | [] => by simp [keepFull, Full]
  | (key, value) :: entries => by
    have ih := keepFull_eq_iff entries
    have hvalue := keepValue_eq_iff key value
    have hle := length_keepFull_le entries
    unfold keepFull Full
    rw [← ih, ← hvalue]
    rcases keepValue_cases key value with h | ⟨kept, h⟩
    · rw [h, List.nil_append]
      constructor
      · intro heq
        rw [heq, List.length_cons] at hle
        omega
      · rintro ⟨hnil, -⟩
        cases hnil
    · rw [h, List.singleton_append, List.cons.injEq, List.cons.injEq]
      simp

theorem keepValue_eq_iff (key : String) : ∀ value : Value, keepValue key value = [(key, value)] ↔ FullValue value
  | .str text => by simp [keepValue, FullValue]
  | .dic entries => by
    have ih := keepFull_eq_iff entries
    simp [keepValue, FullValue, ih]
  | .list [] => by simp [keepValue, FullValue]
  | .list (item :: items) => by
    have ih := keepFull_eq_iff item
    have ihs := keepItems_eq_iff items
    simp [keepValue, FullValue, FullItems, ih, ihs]

theorem keepItems_eq_iff : ∀ items : List Dic, keepItems items = items ↔ FullItems items
  | [] => by simp [keepItems, FullItems]
  | item :: items => by
    have ih := keepFull_eq_iff item
    have ihs := keepItems_eq_iff items
    simp [keepItems, FullItems, ih, ihs]

end

/-! ## Writing and reading -/

/-- White space, as in XML. -/
def IsBlank (text : String) : Prop := ∀ c ∈ text.toList, c.isWhitespace = true

/-- What the children of an element stand for: entries of a dictionary or of a list. -/
inductive Content
  | entries (dic : Dic)
  | items (l : List Dic)

/-- The children that a content is written as. -/
inductive Writes : Content → List Node → Prop
  | noEntries : Writes (.entries []) []
  | noItems : Writes (.items []) []
  | blank {content : Content} {ns : List Node} {text : String} : IsBlank text → Writes content ns →
      Writes content (.text text :: ns)
  | str {key : String} {pieces : List String} {attributes : List (String × String)} {entries : Dic}
      {ns : List Node} : key ∉ entries.map Prod.fst → getAttribute attributes "multiple" ≠ "true" →
      Writes (.entries entries) ns →
      Writes (.entries ((key, .str (String.join pieces)) :: entries))
        (.element key attributes (pieces.map Node.text) :: ns)
  | dic {key : String} {dic entries : Dic} {attributes : List (String × String)} {childNodes ns : List Node} :
      key ∉ entries.map Prod.fst → getAttribute attributes "multiple" ≠ "true" → dic ≠ [] →
      Writes (.entries dic) childNodes → Writes (.entries entries) ns →
      Writes (.entries ((key, .dic dic) :: entries)) (.element key attributes childNodes :: ns)
  | list {key : String} {l : List Dic} {entries : Dic} {attributes : List (String × String)}
      {childNodes ns : List Node} :
      key ∉ entries.map Prod.fst → getAttribute attributes "multiple" = "true" →
      Writes (.items l) childNodes → Writes (.entries entries) ns →
      Writes (.entries ((key, .list l) :: entries)) (.element key attributes childNodes :: ns)
  | item {nodeName : String} {item : Dic} {l : List Dic} {attributes : List (String × String)}
      {childNodes ns : List Node} :
      Writes (.entries item) childNodes → Writes (.items l) ns →
      Writes (.items (item :: l)) (.element nodeName attributes childNodes :: ns)

theorem gatherText_pieces (t : String) (pieces : List String) :
    gatherText t (pieces.map Node.text) = .ok (pieces.foldl (· ++ ·) t) := by
  induction pieces generalizing t with
  | nil => rfl
  | cons piece pieces ih => exact ih (t ++ piece)

/-- An element with entries is no text element. -/
theorem gatherText_entries {content : Content} {ns : List Node} (h : Writes content ns) :
    content ≠ .entries [] → content ≠ .items [] → ∀ t, gatherText t ns = .error .raised := by
  induction h with
  | noEntries => exact fun hne _ _ => absurd rfl hne
  | noItems => exact fun _ hne _ => absurd rfl hne
  | @blank content ns text _ _ ih =>
    intro hne hne' t
    exact ih hne hne' (t ++ text)
  | str => exact fun _ _ _ => rfl
  | dic => exact fun _ _ _ => rfl
  | list => exact fun _ _ _ => rfl
  | item => exact fun _ _ _ => rfl

/-- What the loops make of children: new entries for the dictionary, or a list that is merged if it is not empty. -/
def Reads : Content → List Node → Prop
  | .entries entries, ns => ∀ dic : Dic, (∀ key ∈ entries.map Prod.fst, key ∉ dic.map Prod.fst) →
      scan dic ns = dic ++ keepFull entries
  | .items items, ns => ∀ (nodeName : String) (dic : Dic) (l : List Dic),
      gather nodeName dic l ns = if items = [] then dic else update dic nodeName (.list (l ++ keepItems items))

theorem scan_cons (dic : Dic) (n : Node) (ns : List Node) : scan dic (n :: ns) = scan (merge dic n) ns := rfl

/-- An element for an entry whose key is new: the value is put at the end, if there is one. -/
theorem scan_entry {n : Node} (hread : ∀ dic : Dic, (∀ key ∈ entries.map Prod.fst, key ∉ dic.map Prod.fst) →
      scan dic ns = dic ++ keepFull entries)
    (hkey : key ∉ entries.map Prod.fst)
    (hmerge : ∀ dic : Dic, key ∉ dic.map Prod.fst → merge dic n = dic ++ keepValue key value)
    (hnew : ∀ k ∈ ((key, value) :: entries).map Prod.fst, k ∉ dic.map Prod.fst) :
    scan dic (n :: ns) = dic ++ keepFull ((key, value) :: entries) := by
  have hkeydic : key ∉ dic.map Prod.fst := hnew key (by simp)
  rw [scan_cons, hmerge dic hkeydic, hread]
  · rw [List.append_assoc]
    rfl
  · intro k hk
    have hkdic : k ∉ dic.map Prod.fst := hnew k (List.mem_cons_of_mem key hk)
    rw [List.map_append, List.mem_append]
    rintro (hin | hin)
    · exact hkdic hin
    · rcases keepValue_cases key value with h | ⟨kept, h⟩
      · simp [h] at hin
      · rw [h] at hin
        simp only [List.map_cons, List.map_nil, List.mem_singleton] at hin
        subst hin
        exact hkey hk

/-! One round for each kind of element. -/

theorem merge_text {attributes : List (String × String)} (hattr : getAttribute attributes "multiple" ≠ "true")
    (dic : Dic) (key : String) (pieces : List String) :
    merge dic (.element key attributes (pieces.map Node.text)) = update dic key (.str (String.join pieces)) := by
  have htext : getTextFromNode (.element key attributes (pieces.map Node.text)) = .ok (String.join pieces) :=
    gatherText_pieces "" pieces
  unfold merge
  rw [if_neg hattr, htext]

theorem merge_entries {attributes : List (String × String)} {childNodes : List Node}
    (hattr : getAttribute attributes "multiple" ≠ "true") (htext : gatherText "" childNodes = .error .raised)
    (dic : Dic) (key : String) :
    merge dic (.element key attributes childNodes) = update dic key (.dic (scan [] childNodes)) := by
  have hraised : getTextFromNode (.element key attributes childNodes) = .error .raised := htext
  unfold merge
  rw [if_neg hattr, hraised]

theorem merge_items {attributes : List (String × String)} {childNodes : List Node}
    (hattr : getAttribute attributes "multiple" = "true") (dic : Dic) (key : String) :
    merge dic (.element key attributes childNodes) = gather key dic [] childNodes := by
  unfold merge
  rw [if_pos hattr]

/-- Each entry of a list is followed by a merge of the list so far. -/
theorem gather_item (listName : String) (dic : Dic) (l : List Dic) (nodeName : String)
    (attributes : List (String × String)) (childNodes ns : List Node) :
    gather listName dic l (.element nodeName attributes childNodes :: ns) =
      gather listName (update dic listName (.list (l ++ [scan [] childNodes]))) (l ++ [scan [] childNodes]) ns := rfl

/-- **The loops read what is written**, but for the empty lists. -/
theorem reads_of_writes {content : Content} (h : Writes content ns) : Reads content ns := by
  induction h with
  | noEntries =>
    intro dic _
    simp [scan, keepFull]
  | noItems =>
    intro nodeName dic l
    simp [gather]
  | @blank content ns text _ _ ih =>
    cases content with
    | entries entries => exact fun dic hnew => ih dic hnew
    | items items => exact fun nodeName dic l => ih nodeName dic l
  | @str key pieces attributes entries ns hkey hattr _ ih =>
    intro dic hnew
    apply scan_entry ih hkey _ hnew
    intro dic hkeydic
    rw [merge_text hattr]
    exact update_new hkeydic
  | @dic key inner entries attributes childNodes ns hkey hattr hne hin _ ihin ih =>
    intro dic hnew
    apply scan_entry ih hkey _ hnew
    intro dic hkeydic
    have htext := gatherText_entries hin (by simpa using hne) (by simp) ""
    rw [merge_entries hattr htext, ihin [] (by simp), List.nil_append]
    exact update_new hkeydic
  | @list key items entries attributes childNodes ns hkey hattr _ _ ihin ih =>
    intro dic hnew
    apply scan_entry ih hkey _ hnew
    intro dic hkeydic
    rw [merge_items hattr, ihin key dic []]
    cases items with
    | nil => simp [keepValue]
    | cons item items =>
      rw [if_neg (List.cons_ne_nil item items), update_new hkeydic]
      rfl
  | @item nodeName inner items attributes childNodes ns _ _ ihin ih =>
    intro listName dic l
    rw [gather_item, ihin [] (by simp), List.nil_append, ih, if_neg (List.cons_ne_nil inner items)]
    by_cases hlast : items = []
    · subst hlast
      rw [if_pos rfl]
      rfl
    · rw [if_neg hlast, update_update, List.append_assoc]
      rfl

/-- **What is read back** of a document is the configuration without its empty lists. -/
theorem nodeToDic_writes (h : Writes (.entries entries) ns) : nodeToDic (.document ns) = keepFull entries := by
  have hread : scan [] ns = [] ++ keepFull entries := reads_of_writes h [] (by simp)
  exact hread

/-- **Round trip.** Reading what a configuration is written as gives the configuration back if and only if no list in
it is empty. -/
theorem round_trip (h : Writes (.entries entries) ns) : nodeToDic (.document ns) = entries ↔ Full entries := by
  rw [nodeToDic_writes h]
  exact keepFull_eq_iff entries

/-! ## The sample, and a list without entries -/

/-- A text in one piece. -/
theorem Writes.oneText {attributes : List (String × String)} {text : String} (hkey : key ∉ entries.map Prod.fst)
    (hattr : getAttribute attributes "multiple" ≠ "true") (h : Writes (.entries entries) ns) :
    Writes (.entries ((key, .str text) :: entries)) (.element key attributes [.text text] :: ns) := by
  have hjoin : String.join [text] = text := by simp [String.join]
  have hwrites : Writes (.entries ((key, .str (String.join [text])) :: entries))
      (.element key attributes ([text].map Node.text) :: ns) := .str hkey hattr h
  rw [hjoin] at hwrites
  exact hwrites

/-- An item of `sample.xml`. -/
def sampleItem (name value : String) : Node :=
  .element "Item" [] [.text "\n\t    ", .element "Name" [] [.text name], .text "\n\t    ",
    .element "Value" [] [.text value], .text "\n\t"]

/-- `sample.xml` (`:92-108`). -/
def sampleXml : List Node :=
  [.element "Config" [] [.text "\n    ", .element "Name" [] [.text "My Config File"], .text "\n    \n    ",
    .element "Items" [("multiple", "true")] [.text "\n\t", sampleItem "First Item" "Value 1", .text "\n\t",
      sampleItem "Second Item" "Value 2", .text "\n    "], .text "\n\n"]]

def sampleConfig : Dic :=
  [("Config", .dic [("Name", .str "My Config File"),
    ("Items", .list [[("Name", .str "First Item"), ("Value", .str "Value 1")],
      [("Name", .str "Second Item"), ("Value", .str "Value 2")]])])]

theorem sampleItem_writes (name value : String) {l : List Dic} (h : Writes (.items l) ns) :
    Writes (.items ([("Name", .str name), ("Value", .str value)] :: l)) (sampleItem name value :: ns) := by
  refine .item ?_ h
  refine .blank (by simp [IsBlank]) (.oneText (by simp) (by decide) ?_)
  refine .blank (by simp [IsBlank]) (.oneText (by simp) (by decide) ?_)
  exact .blank (by simp [IsBlank]) .noEntries

theorem sampleXml_writes : Writes (.entries sampleConfig) sampleXml := by
  refine .dic (by decide) (by decide) (by simp) ?_ .noEntries
  refine .blank (by simp [IsBlank]) (.oneText (by simp) (by decide) (.blank (by simp [IsBlank]) ?_))
  refine .list (by decide) (by decide) ?_ (.blank (by simp [IsBlank]) .noEntries)
  refine .blank (by simp [IsBlank]) (sampleItem_writes _ _ (.blank (by simp [IsBlank]) ?_))
  exact sampleItem_writes _ _ (.blank (by simp [IsBlank]) .noItems)

theorem round_trip_sample : nodeToDic (.document sampleXml) = sampleConfig :=
  (round_trip sampleXml_writes).2 (by simp [sampleConfig, Full, FullValue, FullItems])

/-- A list without entries is not read back. -/
theorem empty_list : Writes (.entries [("Config", .dic [("Items", .list [])])])
      [.element "Config" [] [.element "Items" [("multiple", "true")] []]] ∧
    nodeToDic (.document [.element "Config" [] [.element "Items" [("multiple", "true")] []]]) =
      [("Config", .dic [])] ∧
    nodeToDic (.document [.element "Config" [] [.element "Items" [("multiple", "true")] []]]) ≠
      [("Config", .dic [("Items", .list [])])] := by
  have hread : nodeToDic (.document [.element "Config" [] [.element "Items" [("multiple", "true")] []]]) =
      [("Config", .dic [])] := rfl
  refine ⟨?_, hread, ?_⟩
  · refine .dic (by decide) (by decide) (by simp) ?_ .noEntries
    exact .list (by decide) (by decide) .noItems .noEntries
  · rw [hread]
    simp

end SampleBZ
