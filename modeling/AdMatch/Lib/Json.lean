import Mathlib.Algebra.Ring.Int.Defs
import Mathlib.Data.Int.Notation
import Mathlib.Data.List.Forall2
import Mathlib.Data.List.Nodup
import Mathlib.Data.List.Perm.Basic
import Mathlib.Order.Lattice

/-!
# JSON documents and their codecs

A codec writes the values of a type as JSON documents and reads them back. It
carries the laws that make a format: what is written is read as it was
(`decode_encode`), and a document may list the members of its objects in any order,
at any depth (`decode_reorders`).

The codec of a record is put together field by field, `AdMatch.Json.Fields`, in the
manner of a derived deserialiser: a missing field has its default, if there is one,
a field given twice is an error, an unknown member is ignored
(`AdMatch.Json.Fields.decode_ignores`), and an array is read as the fields in their
order.

How documents become text is a parameter, `AdMatch.JsonText`.
-/

namespace AdMatch

/-- A JSON document. The members of an object are in the order of the text, where a
name may occur more than once. -/
inductive Json
  | null
  | bool (b : Bool)
  | int (n : ℤ)
  /-- A number that is not an integer, as it is written. -/
  | real (literal : String)
  | str (s : String)
  | arr (items : List Json)
  | obj (members : List (String × Json))
  deriving Inhabited

namespace Json

/-- The value of the first member of that name. -/
def member (name : String) (members : List (String × Json)) : Option Json :=
  (members.find? fun m => m.1 = name).map Prod.snd

/-- The document at a path of names. -/
def get : List String → Json → Option Json
  | [], v => some v
  | name :: path, .obj members => (member name members).bind (get path)
  | _ :: _, _ => none

/-- **A document that text keeps exactly**: nested at most so deep, its numbers
integers of 64 bits. -/
def Plain : ℕ → Json → Prop
  | _, .null => True
  | _, .bool _ => True
  | _, .int n => -2 ^ 63 ≤ n ∧ n < 2 ^ 64
  | _, .real _ => False
  | _, .str _ => True
  | 0, .arr _ => False
  | 0, .obj _ => False
  | depth + 1, .arr items => ∀ v ∈ items, v.Plain depth
  | depth + 1, .obj members => ∀ m ∈ members, m.2.Plain depth

theorem Plain.mono {depth depth' : ℕ} {v : Json} (h : v.Plain depth) (hle : depth ≤ depth') :
    v.Plain depth' := by
  induction depth generalizing depth' v with
  | zero => cases v <;> cases depth' <;> first | exact h | exact absurd h id
  | succ depth ih =>
    cases depth' with
    | zero => exact absurd hle (Nat.not_succ_le_zero depth)
    | succ depth' =>
      have hle' := Nat.le_of_succ_le_succ hle
      cases v with
      | arr items => exact fun v hv => ih (h v hv) hle'
      | obj members => exact fun m hm => ih (h m hm) hle'
      | null | bool | int | real | str => exact h

/-! ### The order of members -/

/-- **Two documents with the same members**, at every depth, though not in the same
order. -/
inductive Reorders : Json → Json → Prop
  | refl (v) : Reorders v v
  | arr {vs ws : List Json} (h : List.Forall₂ Reorders vs ws) : Reorders (.arr vs) (.arr ws)
  | obj {ms ns os : List (String × Json)} (perm : ms.Perm ns)
      (names : ns.map Prod.fst = os.map Prod.fst)
      (values : List.Forall₂ Reorders (ns.map Prod.snd) (os.map Prod.snd)) :
      Reorders (.obj ms) (.obj os)

/-- Members that have the same name, and values that are reordered. -/
def Alike (m n : String × Json) : Prop := m.1 = n.1 ∧ Reorders m.2 n.2

theorem forall₂_alike {ms ns : List (String × Json)} (names : ms.map Prod.fst = ns.map Prod.fst)
    (values : List.Forall₂ Reorders (ms.map Prod.snd) (ns.map Prod.snd)) :
    List.Forall₂ Alike ms ns := by
  induction ms generalizing ns with
  | nil =>
    cases ns with
    | nil => exact .nil
    | cons n ns => cases names
  | cons m ms ih =>
    cases ns with
    | nil => cases names
    | cons n ns =>
      obtain ⟨hname, hnames⟩ := List.cons.inj names
      obtain ⟨hvalue, hvalues⟩ := List.forall₂_cons.mp values
      exact .cons ⟨hname, hvalue⟩ (ih hnames hvalues)

theorem exists_of_forall₂ {α β : Type} {R : α → β → Prop} {l : List α} {l' : List β}
    (h : List.Forall₂ R l l') {b : β} (hb : b ∈ l') : ∃ a ∈ l, R a b := by
  induction h with
  | nil => exact absurd hb List.not_mem_nil
  | cons hab _ ih =>
    rcases List.mem_cons.mp hb with rfl | hb
    · exact ⟨_, List.mem_cons_self, hab⟩
    · obtain ⟨a, ha, hab⟩ := ih hb
      exact ⟨a, List.mem_cons_of_mem _ ha, hab⟩

/-- Reordering nests nothing deeper. -/
theorem Reorders.plain {depth : ℕ} {v w : Json} (h : Reorders v w) (hplain : v.Plain depth) :
    w.Plain depth := by
  induction depth generalizing v w with
  | zero =>
    cases h with
    | refl => exact hplain
    | arr | obj => exact absurd hplain id
  | succ depth ih =>
    cases h with
    | refl => exact hplain
    | @arr vs ws h =>
      intro w hw
      obtain ⟨v, hv, hvw⟩ := exists_of_forall₂ h hw
      exact ih hvw (hplain v hv)
    | @obj ms ns os perm names values =>
      intro o ho
      obtain ⟨n, hn, -, hvalue⟩ := exists_of_forall₂ (forall₂_alike names values) ho
      exact ih hvalue (hplain n (perm.mem_iff.mpr hn))

/-- Members that are alike, one by one, are found alike. -/
theorem rel_member {ms ns : List (String × Json)} (h : List.Forall₂ Alike ms ns) (name : String) :
    Option.Rel Reorders (member name ms) (member name ns) := by
  induction h with
  | nil => exact .none
  | @cons m n ms ns hmn h ih =>
    rw [member, member, List.find?_cons, List.find?_cons, hmn.1]
    by_cases hname : n.1 = name
    · rw [decide_eq_true hname]
      exact .some hmn.2
    · rw [decide_eq_false hname]
      exact ih

/-- **A name that occurs once is found wherever it stands.** -/
theorem member_perm {ms ns : List (String × Json)} (h : ms.Perm ns) {name : String}
    (hone : (ms.map Prod.fst).count name ≤ 1) : member name ms = member name ns := by
  have hlength : (ms.filter fun m => m.1 = name).length ≤ 1 := by
    rw [← List.countP_eq_length_filter]
    rw [List.count, List.countP_map] at hone
    exact hone
  have hperm := h.filter fun m => decide (m.1 = name)
  have hfilter : (ms.filter fun m => m.1 = name) = ns.filter fun m => m.1 = name := by
    rcases hms : ms.filter fun m => m.1 = name with _ | ⟨m, rest⟩
    · rw [hms] at hperm
      rw [hms, List.nil_perm.mp hperm]
    · rw [hms, List.length_cons] at hlength
      obtain rfl : rest = [] := List.length_eq_zero_iff.mp (by omega)
      rw [hms] at hperm
      rw [hms, List.singleton_perm.mp hperm]
  rw [member, member, ← List.head?_filter, ← List.head?_filter, hfilter]

/-! ### Codecs -/

/-- **How the values of a type are written and read.** -/
structure Codec (α : Type) where
  encode : α → Json
  /-- The value of a document, if it is well formed. -/
  decode : Json → Option α
  /-- How deep documents nest at most. -/
  depth : ℕ
  plain_encode : ∀ a, (encode a).Plain depth
  /-- What is written is read as it was. -/
  decode_encode : ∀ a, decode (encode a) = some a
  /-- The order of members is immaterial. -/
  decode_reorders : ∀ {v w}, Reorders v w → decode v = decode w

namespace Codec

variable {α β : Type}

/-- Booleans. -/
def bool : Codec Bool where
  encode := .bool
  decode
    | .bool b => some b
    | _ => none
  depth := 0
  plain_encode _ := trivial
  decode_encode _ := rfl
  decode_reorders h := by cases h <;> rfl

/-- Strings. -/
def string : Codec String where
  encode := .str
  decode
    | .str s => some s
    | _ => none
  depth := 0
  plain_encode _ := trivial
  decode_encode _ := rfl
  decode_reorders h := by cases h <;> rfl

/-- Machine integers, by their values. -/
def integer (toInt : α → ℤ) (ofInt : ℤ → Option α) (ofInt_toInt : ∀ a, ofInt (toInt a) = some a)
    (range : ∀ a, -2 ^ 63 ≤ toInt a ∧ toInt a < 2 ^ 64) : Codec α where
  encode a := .int (toInt a)
  decode
    | .int n => ofInt n
    | _ => none
  depth := 0
  plain_encode := range
  decode_encode := ofInt_toInt
  decode_reorders h := by cases h <;> rfl

/-- An enumeration, by the names of its variants. A variant without content is also
read from an object that maps its name to `null`. -/
def enumeration (name : α → String) (ofName : String → Option α)
    (ofName_name : ∀ a, ofName (name a) = some a) : Codec α where
  encode a := .str (name a)
  decode
    | .str s => ofName s
    | .obj [m] => match m.2 with
      | .null => ofName m.1
      | _ => none
    | _ => none
  depth := 0
  plain_encode _ := trivial
  decode_encode := ofName_name
  decode_reorders {v w} h := by
    cases h with
    | refl => rfl
    | arr => rfl
    | @obj ms ns os perm names values =>
      have halike := forall₂_alike names values
      rcases ms with _ | ⟨m, _ | ⟨m', ms⟩⟩
      · obtain rfl := List.nil_perm.mp perm
        cases halike
        rfl
      · -- an object of one member has nothing to reorder
        obtain rfl := List.singleton_perm.mp perm
        obtain ⟨o, os, hmo, hrest, rfl⟩ := List.forall₂_cons_left_iff.mp halike
        obtain rfl := List.forall₂_nil_left_iff.mp hrest
        obtain ⟨s, v⟩ := m
        obtain ⟨s', v'⟩ := o
        obtain ⟨rfl, hv⟩ : s = s' ∧ Reorders v v' := hmo
        cases hv <;> rfl
      · have hlength : os.length = ms.length + 2 := by
          rw [← halike.length_eq, ← perm.length_eq]
          rfl
        rcases os with _ | ⟨o, _ | ⟨o', os⟩⟩
        · cases hlength
        · simp at hlength
        · rfl

/-- Values that may be missing, written as `null`. -/
def option (c : Codec α) (encode_ne_null : ∀ a, c.encode a ≠ .null) : Codec (Option α) where
  encode
    | none => .null
    | some a => c.encode a
  decode
    | .null => some none
    | v => (c.decode v).map some
  depth := c.depth
  plain_encode a := by
    cases a with
    | none => cases c.depth <;> trivial
    | some a => exact c.plain_encode a
  decode_encode a := by
    cases a with
    | none => rfl
    | some a =>
      have hne := encode_ne_null a
      have ha := c.decode_encode a
      cases hv : c.encode a with
      | null => exact absurd hv hne
      | bool | int | real | str | arr | obj =>
        rw [hv] at ha
        simp only [hv, ha, Option.map_some]
  decode_reorders {v w} h := by
    have hdecode := c.decode_reorders h
    cases h with
    | refl => rfl
    | arr | obj => exact congrArg (Option.map some) hdecode

/-- Lists. -/
def list (c : Codec α) : Codec (List α) where
  encode l := .arr (l.map c.encode)
  decode
    | .arr vs => vs.mapM c.decode
    | _ => none
  depth := c.depth + 1
  plain_encode l v hv := by
    obtain ⟨a, -, rfl⟩ := List.mem_map.mp hv
    exact c.plain_encode a
  decode_encode l := by
    induction l with
    | nil => rfl
    | cons a l ih =>
      change ((a :: l).map c.encode).mapM c.decode = some (a :: l)
      rw [List.map_cons, List.mapM_cons, c.decode_encode]
      change (l.map c.encode).mapM c.decode = some l at ih
      rw [ih]
      rfl
  decode_reorders {v w} h := by
    cases h with
    | refl => rfl
    | obj => rfl
    | @arr vs ws h =>
      change vs.mapM c.decode = ws.mapM c.decode
      induction h with
      | nil => rfl
      | cons hvw h ih => rw [List.mapM_cons, List.mapM_cons, c.decode_reorders hvw, ih]

/-- A type written as another one. -/
def via (c : Codec β) (toRep : α → β) (ofRep : β → α) (ofRep_toRep : ∀ a, ofRep (toRep a) = a) :
    Codec α where
  encode a := c.encode (toRep a)
  decode v := (c.decode v).map ofRep
  depth := c.depth
  plain_encode a := c.plain_encode (toRep a)
  decode_encode a := by rw [c.decode_encode, Option.map_some, ofRep_toRep]
  decode_reorders h := by rw [c.decode_reorders h]

end Codec

/-! ### Records -/

/-- **The fields of a record**: how they are written, in order, and how they are read
from whatever has them by name. -/
structure Fields (α : Type) where
  names : List String
  nodup : names.Nodup
  write : α → List (String × Json)
  map_fst_write : ∀ a, (write a).map Prod.fst = names
  read : (String → Option Json) → Option α
  read_write : ∀ {look a}, (∀ m ∈ write a, look m.1 = some m.2) → read look = some a
  /-- Only the fields are looked for. -/
  read_congr : ∀ {look look'}, (∀ name ∈ names, Option.Rel Reorders (look name) (look' name)) →
    read look = read look'
  depth : ℕ
  plain_write : ∀ a, ∀ m ∈ write a, m.2.Plain depth

namespace Fields

variable {α β : Type}

/-- No fields. -/
def nil : Fields Unit where
  names := []
  nodup := .nil
  write _ := []
  map_fst_write _ := rfl
  read _ := some ()
  read_write _ := rfl
  read_congr _ := rfl
  depth := 0
  plain_write _ _ h := absurd h List.not_mem_nil

/-- A field, with what stands for it where it is missing, before other fields. -/
def field (name : String) (c : Codec α) (missing : Option α) (rest : Fields β)
    (hname : name ∉ rest.names := by decide) : Fields (α × β) where
  names := name :: rest.names
  nodup := List.nodup_cons.mpr ⟨hname, rest.nodup⟩
  write a := (name, c.encode a.1) :: rest.write a.2
  map_fst_write a := by rw [List.map_cons, rest.map_fst_write]
  read look := do
    let a ← match look name with
      | some v => c.decode v
      | none => missing
    let b ← rest.read look
    return (a, b)
  read_write {look a} h := by
    have hfirst := h _ List.mem_cons_self
    rw [hfirst, rest.read_write fun m hm => h m (List.mem_cons_of_mem _ hm)]
    change (c.decode (c.encode a.1)).bind _ = _
    rw [c.decode_encode]
    rfl
  read_congr {look look'} h := by
    rw [rest.read_congr fun n hn => h n (List.mem_cons_of_mem _ hn)]
    have hfirst := h name List.mem_cons_self
    cases hlook : look name with
    | none =>
      rw [hlook] at hfirst
      rw [show look' name = none by cases hl : look' name <;> simp_all]
    | some v =>
      rw [hlook] at hfirst
      cases hl : look' name with
      | none =>
        rw [hl] at hfirst
        cases hfirst
      | some w =>
        rw [hl] at hfirst
        cases hfirst with
        | some hvw => simp only [c.decode_reorders hvw]
  depth := max c.depth rest.depth
  plain_write a m hm := by
    rcases List.mem_cons.mp hm with rfl | hm
    · exact (c.plain_encode a.1).mono (le_max_left _ _)
    · exact (rest.plain_write a.2 m hm).mono (le_max_right _ _)

/-- A field that may not be missing. -/
def required (name : String) (c : Codec α) (rest : Fields β)
    (hname : name ∉ rest.names := by decide) : Fields (α × β) :=
  field name c none rest hname

/-- A field that has a default. -/
def withDefault (name : String) (c : Codec α) (default : α) (rest : Fields β)
    (hname : name ∉ rest.names := by decide) : Fields (α × β) :=
  field name c (some default) rest hname

variable (fields : Fields α)

/-- The fields of an array, in their order. -/
def positional (items : List Json) (name : String) : Option Json :=
  member name (fields.names.zip items)

/-- Reads a record. A field given twice is an error, and so is an array with too many
items. -/
def decode : Json → Option α
  | .obj members =>
    if ((members.map Prod.fst).filter fun name => name ∈ fields.names).Nodup then
      fields.read fun name => member name members
    else none
  | .arr items =>
    if items.length ≤ fields.names.length then fields.read (fields.positional items) else none
  | _ => none

theorem member_write (a : α) {m : String × Json} (hm : m ∈ fields.write a) :
    member m.1 (fields.write a) = some m.2 := by
  have hnodup : ((fields.write a).map Prod.fst).Nodup := by
    rw [fields.map_fst_write]
    exact fields.nodup
  rcases hfind : (fields.write a).find? fun n => n.1 = m.1 with _ | n
  · exact absurd (decide_eq_true rfl) (List.find?_eq_none.mp hfind m hm)
  · have hn := List.mem_of_find?_eq_some hfind
    have hname : n.1 = m.1 := by simpa using List.find?_some hfind
    rw [member, hfind, (List.inj_on_of_nodup_map hnodup) hn hm hname]
    rfl

theorem decode_write (a : α) : fields.decode (.obj (fields.write a)) = some a := by
  have hnodup : (((fields.write a).map Prod.fst).filter fun name =>
      name ∈ fields.names).Nodup := by
    rw [fields.map_fst_write]
    exact fields.nodup.filter _
  rw [decode, if_pos hnodup]
  exact fields.read_write fun m hm => fields.member_write a hm

/-- Where no field is given twice, a field is found wherever it stands. -/
theorem member_perm_of_nodup {ms ns : List (String × Json)} (h : ms.Perm ns)
    (hnodup : ((ms.map Prod.fst).filter fun name => name ∈ fields.names).Nodup) {name : String}
    (hname : name ∈ fields.names) : member name ms = member name ns := by
  refine member_perm h ?_
  rw [← List.count_filter (p := fun n => decide (n ∈ fields.names)) (decide_eq_true hname)]
  exact List.nodup_iff_count_le_one.mp hnodup name

theorem decode_reorders {v w : Json} (h : Reorders v w) : fields.decode v = fields.decode w := by
  cases h with
  | refl => rfl
  | @arr vs ws h =>
    have hzip : List.Forall₂ Alike (fields.names.zip vs) (fields.names.zip ws) := by
      generalize fields.names = names
      induction h generalizing names with
      | nil => rw [List.zip_nil_right]; exact .nil
      | cons hvw h ih =>
        cases names with
        | nil => exact .nil
        | cons name names => exact .cons ⟨rfl, hvw⟩ (ih names)
    have hread : fields.read (fields.positional vs) = fields.read (fields.positional ws) :=
      fields.read_congr fun name _ => rel_member hzip name
    rw [decode, decode, h.length_eq, hread]
  | @obj ms ns os perm names values =>
    have hnames : ((ms.map Prod.fst).filter fun name => name ∈ fields.names).Perm
        ((os.map Prod.fst).filter fun name => name ∈ fields.names) := by
      rw [← names]
      exact (perm.map _).filter _
    rw [decode, decode]
    by_cases hnodup : ((ms.map Prod.fst).filter fun name => name ∈ fields.names).Nodup
    · rw [if_pos hnodup, if_pos (hnames.nodup_iff.mp hnodup)]
      refine fields.read_congr fun name hname => ?_
      rw [fields.member_perm_of_nodup perm hnodup hname]
      exact rel_member (forall₂_alike names values) name
    · rw [if_neg hnodup, if_neg fun h => hnodup (hnames.nodup_iff.mpr h)]

/-- **Unknown members are ignored.** -/
theorem decode_ignores (members : List (String × Json)) :
    fields.decode (.obj members) =
      fields.decode (.obj (members.filter fun m => m.1 ∈ fields.names)) := by
  have hnames : ((members.filter fun m => m.1 ∈ fields.names).map Prod.fst).filter
      (fun name => name ∈ fields.names) =
        (members.map Prod.fst).filter fun name => name ∈ fields.names := by
    rw [List.filter_map, List.filter_map, List.filter_filter]
    congr 1
    refine List.filter_congr fun m _ => ?_
    simp
  rw [decode, decode, hnames]
  congr 1
  refine fields.read_congr fun name hname => ?_
  have hmember : member name (members.filter fun m => m.1 ∈ fields.names) =
      member name members := by
    rw [member, member, List.find?_filter]
    congr 2
    funext m
    by_cases hm : m.1 = name
    · simp [hm, hname]
    · simp [hm]
  rw [hmember]
  cases member name members with
  | none => exact .none
  | some v => exact .some (.refl v)

/-- **A record is read from whatever has its fields**, in any order and among any other
members. -/
theorem decode_of_perm {members : List (String × Json)} {a : α}
    (h : (members.filter fun m => m.1 ∈ fields.names).Perm (fields.write a)) :
    fields.decode (.obj members) = some a := by
  have hreorders : Reorders (.obj (members.filter fun m => m.1 ∈ fields.names))
      (.obj (fields.write a)) :=
    .obj h rfl (List.forall₂_same.mpr fun v _ => .refl v)
  rw [fields.decode_ignores, fields.decode_reorders hreorders, fields.decode_write]

/-- **The codec of a record.** -/
def record (fields : Fields β) (toFields : α → β) (ofFields : β → α)
    (ofFields_toFields : ∀ a, ofFields (toFields a) = a) : Codec α where
  encode a := .obj (fields.write (toFields a))
  decode v := (fields.decode v).map ofFields
  depth := fields.depth + 1
  plain_encode a := fields.plain_write (toFields a)
  decode_encode a := by rw [fields.decode_write, Option.map_some, ofFields_toFields]
  decode_reorders h := by rw [fields.decode_reorders h]

end Fields

end Json

/-! ### Text -/

/-- A text format for documents. -/
structure JsonText where
  Text : Type
  print : Json → Text
  /-- The document of a text, if it is well formed. -/
  parse : Text → Option Json

/-- **What is printed is parsed as it was**, if text can keep it and it is not nested
too deep for the parser. -/
def JsonText.Keeps (text : JsonText) : Prop :=
  ∀ v : Json, v.Plain 127 → text.parse (text.print v) = some v

/-- **A value is read from its text**, whatever order its members were printed in. -/
theorem JsonText.Keeps.decode_print {text : JsonText} (h : text.Keeps) {α : Type}
    (codec : Json.Codec α) (hdepth : codec.depth ≤ 127) {a : α} {v : Json}
    (hv : Json.Reorders (codec.encode a) v) :
    (text.parse (text.print v)).bind codec.decode = some a := by
  have hplain : v.Plain 127 := hv.plain ((codec.plain_encode a).mono hdepth)
  rw [h v hplain, Option.bind_some, ← codec.decode_reorders hv, codec.decode_encode]

end AdMatch
