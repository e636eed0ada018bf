import TaggedSql.Proofs.Tree.Growth
import TaggedSql.Tree.Basic

/-!
# What a node says

A datum is a form whose spans have been replaced by the texts that they cover, so that it can be
compared with a tree that was never printed.

* `Form.read`: the datum of a form over a source;
* `Shows`, `ShowsAll`: a node, or each of several nodes, is there and has a given datum;
* `Stable`: a property of an arena that adding nodes cannot make false, as those are.
-/

namespace TaggedSql

/-- A form whose names, strings and blobs are texts. -/
inductive Datum where
  | list (items : List Datum)
  | tag (t : Tag)
  | integer (value : Int64)
  | float (value : Binary64)
  | name (text : String)
  | string (text : String)
  | blob (text : String)

/-- A list that a tag heads. -/
def Datum.tagged (t : Tag) (items : List Datum) : Datum := .list (.tag t :: items)

namespace Form

mutual

/-- The datum of a form, its spans read from a source. -/
def read (source : String) : Form → Datum
  | .list items => .list (readItems source items)
  | .tag t => .tag t
  | .integer n => .integer n
  | .float x => .float x
  | .name s => .name (s.slice source)
  | .string s => .string (s.slice source)
  | .blob s => .blob (s.slice source)

/-- The data of the items of a list. -/
def readItems (source : String) : List Form → List Datum
  | [] => []
  | item :: items => read source item :: readItems source items

end

theorem readItems_eq_map (source : String) (items : List Form) :
    readItems source items = items.map (read source) := by
  induction items with
  | nil => rfl
  | cons item items ih => rw [readItems, ih, List.map_cons]

theorem read_list (source : String) (items : List Form) :
    read source (.list items) = .list (items.map (read source)) := by
  rw [read, readItems_eq_map]

end Form

/-- The datum of a tree. -/
def Tree.datum (t : Tree) : Datum := (t.form t.root).read t.source

namespace Arena

variable {source : String} {a b : Arena} {id : NodeId} {ids : List NodeId} {d : Datum}
  {ds : List Datum}

/-- A node is there and has a datum. -/
structure Shows (source : String) (a : Arena) (id : NodeId) (d : Datum) : Prop where
  lt : id < a.size
  read : (a.form id).read source = d

/-- Each of several nodes is there and has its datum. -/
def ShowsAll (source : String) (a : Arena) (ids : List NodeId) (ds : List Datum) : Prop :=
  List.Forall₂ (Shows source a) ids ds

@[simp]
theorem showsAll_nil : ShowsAll source a [] [] := List.Forall₂.nil

@[simp]
theorem showsAll_cons :
    ShowsAll source a (id :: ids) (d :: ds) ↔ Shows source a id d ∧ ShowsAll source a ids ds :=
  List.forall₂_cons

theorem ShowsAll.append {ids' : List NodeId} {ds' : List Datum} (h : ShowsAll source a ids ds)
    (h' : ShowsAll source a ids' ds') : ShowsAll source a (ids ++ ids') (ds ++ ds') := by
  induction h with
  | nil => exact h'
  | cons hid _ ih => exact showsAll_cons.2 ⟨hid, ih⟩

theorem ShowsAll.length_eq (h : ShowsAll source a ids ds) : ids.length = ds.length :=
  List.Forall₂.length_eq h

theorem Shows.single (h : Shows source a id d) : ShowsAll source a [id] [d] :=
  showsAll_cons.2 ⟨h, showsAll_nil⟩

/-- Nodes that show data hold forms that are read as the data. -/
theorem ShowsAll.exists_holdsAll (h : ShowsAll source a ids ds) :
    ∃ fs, a.HoldsAll ids fs ∧ fs.map (Form.read source) = ds := by
  induction h with
  | nil => exact ⟨[], holdsAll_nil, rfl⟩
  | @cons id d _ _ hid _ ih =>
    obtain ⟨fs, hfs, hmap⟩ := ih
    exact ⟨a.form id :: fs, hfs.cons ⟨hid.lt, rfl⟩, by rw [List.map_cons, hid.read, hmap]⟩

/-! ### Adding nodes -/

/-- A node that was just added and is no list shows its own form. -/
theorem shows_push {node : Node} {f : Form} (hleaf : node.leaf? = some f) :
    Shows source (a.push node) a.size (f.read source) := by
  have h := holds_push (a := a) hleaf
  exact ⟨h.lt, by rw [h.form]⟩

/-- A list that was just added shows what its items show. -/
theorem shows_pushList (ha : a.Sound) (h : ShowsAll source a ids ds) :
    Shows source (a.pushList ids) a.size (.list ds) := by
  obtain ⟨fs, hfs, rfl⟩ := h.exists_holdsAll
  have hlist := holds_pushList ha hfs
  exact ⟨hlist.lt, by rw [hlist.form, Form.read_list]⟩

/-! ### What stays true -/

/-- A property of an arena that adding nodes cannot make false. -/
class Stable (K : Arena → Prop) : Prop where
  mono : ∀ {a b : Arena}, a.Sound → a.Grows b → K a → K b

instance stable_const (p : Prop) : Stable fun _ => p where
  mono _ _ h := h

instance stable_and (K L : Arena → Prop) [Stable K] [Stable L] : Stable fun a => K a ∧ L a where
  mono ha hab h := ⟨Stable.mono ha hab h.1, Stable.mono ha hab h.2⟩

instance stable_holds (id : NodeId) (f : Form) : Stable fun a => a.Holds id f where
  mono ha hab h := h.mono ha hab

instance stable_holdsAll (ids : List NodeId) (fs : List Form) :
    Stable fun a => a.HoldsAll ids fs where
  mono ha hab h := h.mono ha hab

theorem Shows.mono (h : Shows source a id d) (ha : a.Sound) (hab : a.Grows b) :
    Shows source b id d :=
  ⟨Nat.lt_of_lt_of_le h.lt hab.size_le, by rw [hab.form_eq ha h.lt, h.read]⟩

instance stable_shows (id : NodeId) (d : Datum) : Stable fun a => Shows source a id d where
  mono ha hab h := h.mono ha hab

instance stable_showsAll (ids : List NodeId) (ds : List Datum) :
    Stable fun a => ShowsAll source a ids ds where
  mono ha hab h := List.Forall₂.imp (fun _ _ hid => hid.mono ha hab) h

end Arena

end TaggedSql
