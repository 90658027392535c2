import FfiHeaders.Proofs.Result
import FfiHeaders.Source.OfDocument

/-!
# Documents that describe a module tree

A module tree is written as a document that gives every key of every object, and reading the document
gives the tree back, however the choices that writing leaves open are made.
-/
namespace FfiHeaders

namespace Source

/-! ### Members of objects -/

theorem find?_eq_some_of_mem {ms : Members} {key : String} {v : Value}
    (hn : (ms.map (·.1)).Nodup) (h : (key, v) ∈ ms) : Value.find? ms key = some v := by
  induction ms with
  | nil => cases h
  | cons m ms ih =>
    obtain ⟨hm, hms⟩ := List.nodup_cons.1 hn
    rcases List.mem_cons.1 h with rfl | h
    · simp [Value.find?]
    · have hne : m.1 ≠ key := by
        rintro rfl
        exact hm (List.mem_map.2 ⟨_, h, rfl⟩)
      have hrest := ih hms h
      rw [Value.find?] at hrest ⊢
      rwa [List.find?_cons_of_neg (by simpa using hne)]

theorem mem_of_find? {ms : Members} {key : String} {v : Value}
    (h : Value.find? ms key = some v) : (key, v) ∈ ms := by
  obtain ⟨m, hm, rfl⟩ := Option.map_eq_some_iff.1 h
  have hkey := List.find?_some hm
  obtain rfl := eq_of_beq hkey
  exact List.mem_of_find?_eq_some hm

/-- Where each key is there once, the order of the members does not count. -/
theorem find?_of_perm {ms ns : Members} (h : ms.Perm ns) (hn : (ns.map (·.1)).Nodup)
    (key : String) : Value.find? ms key = Value.find? ns key := by
  have hm : (ms.map (·.1)).Nodup := (h.map _).nodup_iff.2 hn
  refine Option.ext fun v => ⟨fun hv => ?_, fun hv => ?_⟩
  · exact find?_eq_some_of_mem hn (h.mem_iff.1 (mem_of_find? hv))
  · exact find?_eq_some_of_mem hm (h.mem_iff.2 (mem_of_find? hv))

/-- A walk through the members to the first one with the key. -/
theorem eq_elim_find? {α : Type} {f : Members → α} {key : String} {none : α} {some : Value → α}
    (hnil : f [] = none)
    (hcons : ∀ k v ms, f ((k, v) :: ms) = if k = key then some v else f ms) (ms : Members) :
    f ms = (Value.find? ms key).elim none some := by
  induction ms with
  | nil => exact hnil
  | cons m ms ih =>
    obtain ⟨k, v⟩ := m
    rw [hcons, ih]
    by_cases hk : k = key <;> simp [Value.find?, hk]

section Lookup

variable {ms : Members} {key : String} {v : Value}

theorem require_of_find? (what : String) (h : Value.find? ms key = some v) :
    require ms key what = .ok v := by
  rw [require, h]

theorem getD_of_find? {default : Value} (h : Value.find? ms key = some v) :
    Value.getD ms key default = v := by
  rw [Value.getD, h, Option.getD_some]

theorem elementsAt_of_find? {vs : List Value} (h : Value.find? ms key = some (.list vs)) :
    elementsAt ms key = .ok vs := by
  rw [elementsAt, getD_of_find? h, elements]

theorem typeAt_eq (key what : String) (whole ms : Members) : typeAt key what whole ms =
    (Value.find? ms key).elim (.error (missing what key whole)) typeOf :=
  eq_elim_find? (by rw [typeAt]) (fun k v ms => by rw [typeAt]) ms

theorem typeAt_of_find? {whole : Members} (what : String) (h : Value.find? ms key = some v) :
    typeAt key what whole ms = typeOf v := by
  rw [typeAt_eq, h, Option.elim_some]

theorem typesAt_eq (key : String) (ms : Members) :
    typesAt key ms = (Value.find? ms key).elim (.ok []) typesOf :=
  eq_elim_find? (by rw [typesAt]) (fun k v ms => by rw [typesAt]) ms

theorem typesAt_of_find? {vs : List Value} (h : Value.find? ms key = some (.list vs)) :
    typesAt key ms = typeList vs := by
  rw [typesAt_eq, h, Option.elim_some, typesOf]

theorem outputAt_eq (key : String) (ms : Members) : outputAt key ms =
    (Value.find? ms key).elim (.ok none)
      fun v => if v.isNull then .ok none else some <$> typeOf v :=
  eq_elim_find? (by rw [outputAt]) (fun k v ms => by rw [outputAt]) ms

theorem outputAt_of_find? (h : Value.find? ms key = some v) :
    outputAt key ms = if v.isNull then .ok none else some <$> typeOf v := by
  rw [outputAt_eq, h, Option.elim_some]

theorem paramsAt_eq (key : String) (ms : Members) :
    paramsAt key ms = (Value.find? ms key).elim (.ok []) paramsOf :=
  eq_elim_find? (by rw [paramsAt]) (fun k v ms => by rw [paramsAt]) ms

theorem paramsAt_of_find? {vs : List Value} (h : Value.find? ms key = some (.list vs)) :
    paramsAt key ms = paramList vs := by
  rw [paramsAt_eq, h, Option.elim_some, paramsOf]

theorem attributesAt?_eq (key : String) (ms : Members) :
    attributesAt? key ms = (Value.find? ms key).map attributesOf := by
  have hlookup : attributesAt? key ms =
      (Value.find? ms key).elim none fun v => some (attributesOf v) :=
    eq_elim_find? (by rw [attributesAt?]) (fun k v ms => by rw [attributesAt?]) ms
  rw [hlookup]
  cases Value.find? ms key <;> rfl

theorem itemsAt_eq (key : String) (ms : Members) :
    itemsAt key ms = (Value.find? ms key).elim (.ok []) itemsOf :=
  eq_elim_find? (by rw [itemsAt]) (fun k v ms => by rw [itemsAt]) ms

theorem itemsAt_of_find? {vs : List Value} (h : Value.find? ms key = some (.list vs)) :
    itemsAt key ms = itemList vs := by
  rw [itemsAt_eq, h, Option.elim_some, itemsOf]

end Lookup

/-! ### Reading objects by their keys -/

section Types

variable {ms : Members} {v : Value} {t : TypeExpr}

-- the steps of reading an object: once the keys are looked up, nothing else is left to compute
attribute [local simp] typeOf elements Value.isTrue bind Except.bind pure Except.pure

theorem typeOf_path {segments vs : List Value} {generics : List TypeExpr}
    (hkind : Value.find? ms "kind" = some (.text "path"))
    (hsegments : Value.find? ms "segments" = some (.list segments))
    (hgenerics : Value.find? ms "generic_args" = some (.list vs))
    (hvs : typeList vs = .ok generics) : typeOf (.object ms) = .ok (.path segments generics) := by
  simp [require_of_find? _ hkind, require_of_find? "path type" hsegments,
    typesAt_of_find? hgenerics, hvs]

theorem typeOf_pointer {isMutable : Bool} (hkind : Value.find? ms "kind" = some (.text "ptr"))
    (hinner : Value.find? ms "inner" = some v)
    (hmutable : Value.find? ms "mutable" = some (.bool isMutable)) (hv : typeOf v = .ok t) :
    typeOf (.object ms) = .ok (.pointer isMutable t) := by
  simp [require_of_find? _ hkind, typeAt_of_find? "pointer type" hinner, hv, getD_of_find? hmutable]

theorem typeOf_array {length : Value} (hkind : Value.find? ms "kind" = some (.text "array"))
    (helement : Value.find? ms "element" = some v)
    (hlength : Value.find? ms "length" = some length) (hv : typeOf v = .ok t) :
    typeOf (.object ms) = .ok (.array t length) := by
  simp [require_of_find? _ hkind, typeAt_of_find? "array type" helement, hv,
    require_of_find? "array type" hlength]

theorem typeOf_function {vs lifetimes : List Value} {params : List Param}
    {output : Option TypeExpr} (hkind : Value.find? ms "kind" = some (.text "fn"))
    (hparams : Value.find? ms "params" = some (.list vs)) (hvs : paramList vs = .ok params)
    (houtput : outputAt "output" ms = .ok output)
    (hlifetimes : Value.find? ms "lifetimes" = some (.list lifetimes)) :
    typeOf (.object ms) = .ok (.function params output lifetimes) := by
  simp [require_of_find? _ hkind, paramsAt_of_find? hparams, hvs, houtput,
    elementsAt_of_find? hlifetimes]

theorem typeOf_tuple {vs : List Value} {ts : List TypeExpr}
    (hkind : Value.find? ms "kind" = some (.text "tuple"))
    (helements : Value.find? ms "elements" = some (.list vs)) (hvs : typeList vs = .ok ts) :
    typeOf (.object ms) = .ok (.tuple ts) := by
  simp [require_of_find? _ hkind, typesAt_of_find? helements, hvs]

theorem typeOf_never (hkind : Value.find? ms "kind" = some (.text "never")) :
    typeOf (.object ms) = .ok .never := by
  simp [require_of_find? _ hkind]

theorem typeOf_reference {isMutable : Bool} {lifetime : Value}
    (hkind : Value.find? ms "kind" = some (.text "ref"))
    (hinner : Value.find? ms "inner" = some v)
    (hmutable : Value.find? ms "mutable" = some (.bool isMutable))
    (hlifetime : Value.find? ms "lifetime" = some lifetime) (hv : typeOf v = .ok t) :
    typeOf (.object ms) = .ok (.reference isMutable lifetime t) := by
  simp [require_of_find? _ hkind, typeAt_of_find? "reference type" hinner, hv,
    getD_of_find? hmutable, getD_of_find? hlifetime]

theorem typeOf_slice (hkind : Value.find? ms "kind" = some (.text "slice"))
    (helement : Value.find? ms "element" = some v) (hv : typeOf v = .ok t) :
    typeOf (.object ms) = .ok (.slice t) := by
  simp [require_of_find? _ hkind, typeAt_of_find? "slice type" helement, hv]

theorem paramOf_object {pattern : Value} (hpattern : Value.find? ms "pattern" = some pattern)
    (htype : Value.find? ms "type" = some v) (hv : typeOf v = .ok t) :
    paramOf (.object ms) = .ok (.mk pattern t) := by
  rw [paramOf, typeAt_of_find? _ htype, hv, getD_of_find? hpattern]
  rfl

end Types

section Attributes

variable {ms : Members} {name : Value}

theorem attributeOf_word (hname : Value.find? ms "name" = some name)
    (hitems : Value.find? ms "items" = none) (hvalue : Value.find? ms "value" = none) :
    attributeOf (.object ms) = .ok (.word name) := by
  rw [attributeOf, require_of_find? _ hname, attributesAt?_eq, hitems, hvalue]
  rfl

theorem attributeOf_list {vs : List Value} {items : List Attribute}
    (hname : Value.find? ms "name" = some name)
    (hitems : Value.find? ms "items" = some (.list vs)) (hvs : attributeList vs = .ok items) :
    attributeOf (.object ms) = .ok (.list name items) := by
  rw [attributeOf, require_of_find? _ hname, attributesAt?_eq, hitems, Option.map_some, attributesOf,
    hvs]
  rfl

theorem attributeOf_nameValue {v : Value} (hname : Value.find? ms "name" = some name)
    (hitems : Value.find? ms "items" = none) (hvalue : Value.find? ms "value" = some v) :
    attributeOf (.object ms) = .ok (.nameValue name v) := by
  rw [attributeOf, require_of_find? _ hname, attributesAt?_eq, hitems, hvalue]
  rfl

theorem attributes_of_find? {vs docs : List Value} {attrs : List Attribute}
    (hattrs : Value.find? ms "attrs" = some (.list vs)) (hvs : attributeList vs = .ok attrs)
    (hdocs : Value.find? ms "docs" = some (.list docs)) :
    attributes ms = .ok (attrs ++ docs.map Attribute.ofDoc) := by
  rw [attributes, attributesAt?_eq, hattrs, elementsAt_of_find? hdocs, Option.map_some, attributesOf,
    hvs]
  rfl

end Attributes

section Declarations

variable {ms : Members} {name v : Value} {attrs : List Attribute} {span : Option Span}

theorem spanOf_object {file line column : Value} (hfile : Value.find? ms "file" = some file)
    (hline : Value.find? ms "line" = some line) (hcolumn : Value.find? ms "column" = some column) :
    spanOf (.object ms) = .ok (some ⟨file, line, column⟩) := by
  rw [spanOf, require_of_find? _ hfile, require_of_find? _ hline, getD_of_find? hcolumn]
  rfl

theorem fieldOf_object {t : TypeExpr} (hname : Value.find? ms "name" = some name)
    (htype : Value.find? ms "type" = some v) (hv : typeOf v = .ok t)
    (hattrs : attributes ms = .ok attrs) (hspan : spanAt ms = .ok span) :
    fieldOf (.object ms) = .ok ⟨name, t, attrs, span⟩ := by
  rw [fieldOf, typeAt_of_find? _ htype, hv, hattrs, hspan, getD_of_find? hname]
  rfl

theorem fieldsAt_of_find? {vs : List Value} {fields : List Field}
    (hfields : Value.find? ms "fields" = some (.list vs)) (hvs : vs.mapM fieldOf = .ok fields) :
    fieldsAt ms = .ok fields := by
  rw [fieldsAt, elementsAt_of_find? hfields]
  exact hvs

theorem variantOf_object {fields : List Field} {discriminant : Value}
    (hname : Value.find? ms "name" = some name) (hfields : fieldsAt ms = .ok fields)
    (hattrs : attributes ms = .ok attrs) (hspan : spanAt ms = .ok span)
    (hdiscriminant : Value.find? ms "discriminant" = some discriminant) :
    variantOf (.object ms) = .ok ⟨name, fields, attrs,
      if discriminant.isNull then none else some discriminant.plain, span⟩ := by
  rw [variantOf, require_of_find? _ hname, hfields, hattrs, hspan, getD_of_find? hdiscriminant]
  rfl

theorem bodyOf_typeAlias {t : TypeExpr} (htype : Value.find? ms "type" = some v)
    (hv : typeOf v = .ok t) : bodyOf (.text "type") ms = .ok (.typeAlias t) := by
  change Body.typeAlias <$> typeAt "type" "type alias" ms ms = _
  rw [typeAt_of_find? _ htype, hv]
  rfl

theorem bodyOf_enum {vs : List Value} {variants : List Variant}
    (hvariants : Value.find? ms "variants" = some (.list vs))
    (hvs : vs.mapM variantOf = .ok variants) : bodyOf (.text "enum") ms = .ok (.enum variants) := by
  change (do return Body.enum (← (← elementsAt ms "variants").mapM variantOf)) = _
  rw [elementsAt_of_find? hvariants]
  change (do return Body.enum (← vs.mapM variantOf)) = _
  rw [hvs]
  rfl

theorem bodyOf_struct {kind : Value} {fields : List Field} (hfields : fieldsAt ms = .ok fields)
    (hkind : Value.find? ms "struct_kind" = some kind) :
    bodyOf (.text "struct") ms = .ok (.struct kind fields) := by
  change (do
    let fields ← fieldsAt ms
    return Body.struct (Value.getD ms "struct_kind" (.text (structKind fields))) fields) = _
  rw [hfields]
  exact congrArg (fun kind => Except.ok (Body.struct kind fields)) (getD_of_find? hkind)

theorem bodyOf_function {vs : List Value} {params : List Param} {output : Option TypeExpr}
    {abi : Value} (hparams : Value.find? ms "params" = some (.list vs))
    (hvs : paramList vs = .ok params) (houtput : outputAt "output" ms = .ok output)
    (habi : Value.find? ms "abi" = some abi) :
    bodyOf (.text "function") ms = .ok (.function abi params output) := by
  change (do
    let params ← paramsAt "params" ms
    let output ← outputAt "output" ms
    return Body.function (Value.getD ms "abi" (.text "Rust")) params output) = _
  rw [paramsAt_of_find? hparams, hvs, houtput, getD_of_find? habi]
  rfl

theorem declarationOf_object {kind : Value} {generics : List Value} {isPublic : Bool} {body : Body}
    (hname : Value.find? ms "name" = some name) (hattrs : attributes ms = .ok attrs)
    (hgenerics : Value.find? ms "generics" = some (.list generics))
    (hpublic : Value.find? ms "public" = some (.bool isPublic)) (hspan : spanAt ms = .ok span)
    (hbody : bodyOf kind ms = .ok body) :
    declarationOf kind ms = .ok ⟨name, attrs, generics, isPublic, span, body⟩ := by
  rw [declarationOf, require_of_find? _ hname, hattrs, elementsAt_of_find? hgenerics, hspan, hbody,
    getD_of_find? hpublic]
  rfl

theorem itemOf_module {vs : List Value} {items : List Item}
    (hkind : Value.find? ms "kind" = some (.text "module"))
    (hname : Value.find? ms "name" = some name)
    (hitems : Value.find? ms "items" = some (.list vs)) (hvs : itemList vs = .ok items) :
    itemOf (.object ms) = .ok (.module name items) := by
  rw [itemOf, require_of_find? _ hkind]
  dsimp only [bind, Except.bind]
  rw [require_of_find? _ hname, itemsAt_of_find? hitems, hvs]
  rfl

theorem itemOf_declaration {kind : Value} {d : Declaration} (hkind : Value.find? ms "kind" = some kind)
    (hne : kind ≠ .text "module") (hd : declarationOf kind ms = .ok d) :
    itemOf (.object ms) = .ok (.declaration d) := by
  rw [itemOf, require_of_find? _ hkind]
  dsimp only [bind, Except.bind]
  split
  · next h => exact absurd rfl hne
  · rw [hd]
    rfl

theorem moduleOf_object {vs : List Value} {items : List Item}
    (hname : Value.find? ms "name" = some name)
    (hitems : Value.find? ms "items" = some (.list vs)) (hvs : itemList vs = .ok items) :
    moduleOf (.object ms) = .ok ⟨name, items⟩ := by
  rw [moduleOf, require_of_find? _ hname, itemsAt_of_find? hitems, hvs]
  rfl

end Declarations

/-! ### Writing -/

/-- What writing a document leaves open. -/
structure Style where
  /-- The members of an object in the order in which they are written. -/
  arrange : Members → Members
  perm_arrange : ∀ ms, (arrange ms).Perm ms
  /-- Whether an attribute that is a word stands as that word and not as an object. -/
  bareWords : Bool
  /-- The attributes that are written as such, and the lines of the documentation after them. -/
  split : List Attribute → List Attribute × List Value
  split_eq : ∀ as, (split as).1 ++ (split as).2.map Attribute.ofDoc = as

namespace Style

/-- Members as they come, and every attribute as an object. -/
def plain : Style where
  arrange ms := ms
  perm_arrange ms := .refl ms
  bareWords := false
  split as := (as, [])
  split_eq as := List.append_nil as

instance : Inhabited Style := ⟨plain⟩

def object (s : Style) (ms : Members) : Value := .object (s.arrange ms)

theorem find?_arrange (s : Style) {ms : Members} {key : String} {v : Option Value}
    (hn : (ms.map (·.1)).Nodup) (h : Value.find? ms key = v) :
    Value.find? (s.arrange ms) key = v :=
  (find?_of_perm (s.perm_arrange ms) hn key).trans h

end Style

end Source

section Documents

variable (s : Source.Style)

mutual

/-- The document of a type. -/
def TypeExpr.document : TypeExpr → Value
  | path segments generics =>
    s.object [("kind", .text "path"), ("segments", .list segments),
      ("generic_args", .list (documents generics))]
  | pointer isMutable t =>
    s.object [("kind", .text "ptr"), ("inner", t.document), ("mutable", .bool isMutable)]
  | array t length =>
    s.object [("kind", .text "array"), ("element", t.document), ("length", length)]
  | function params output lifetimes =>
    s.object [("kind", .text "fn"), ("params", .list (paramDocuments params)),
      ("output", outputDocument output), ("lifetimes", .list lifetimes)]
  | tuple ts => s.object [("kind", .text "tuple"), ("elements", .list (documents ts))]
  | never => s.object [("kind", .text "never")]
  | reference isMutable lifetime t =>
    s.object [("kind", .text "ref"), ("inner", t.document), ("mutable", .bool isMutable),
      ("lifetime", lifetime)]
  | slice t => s.object [("kind", .text "slice"), ("element", t.document)]

def TypeExpr.documents : List TypeExpr → List Value
  | [] => []
  | t :: ts => t.document :: documents ts

def TypeExpr.paramDocuments : List Param → List Value
  | [] => []
  | .mk pattern t :: ps =>
    s.object [("pattern", pattern), ("type", t.document)] :: paramDocuments ps

/-- The document of an output type, null where there is none. -/
def TypeExpr.outputDocument : Option TypeExpr → Value
  | none => .null
  | some t => t.document

end

mutual

/-- The document of an attribute. -/
def Attribute.document : Attribute → Value
  | word (.text n) => if s.bareWords then .text n else s.object [("name", .text n)]
  | word n => s.object [("name", n)]
  | list n items => s.object [("name", n), ("items", .list (documents items))]
  | nameValue n v => s.object [("name", n), ("value", v)]

def Attribute.documents : List Attribute → List Value
  | [] => []
  | a :: as => a.document :: documents as

end

/-- The document of a location, null where there is none. -/
def Span.document : Option Span → Value
  | none => .null
  | some p => s.object [("file", p.file), ("line", p.line), ("column", p.column)]

/-- The members that hold the attributes and the location of a declaration, field or variant. -/
def Source.Style.notes (attrs : List Attribute) (span : Option Span) : Members :=
  [("attrs", .list (Attribute.documents s (s.split attrs).1)), ("docs", .list (s.split attrs).2),
    ("span", Span.document s span)]

def Field.members (f : Field) : Members :=
  [("name", f.name), ("type", f.type.document s)] ++ s.notes f.attrs f.span

/-- The document of a field. -/
def Field.document (f : Field) : Value := s.object (f.members s)

def Variant.members (v : Variant) : Members :=
  [("name", v.name), ("fields", .list (v.fields.map (Field.document s))),
    ("discriminant", (v.discriminant.map .text).getD .null)] ++ s.notes v.attrs v.span

/-- The document of a variant. -/
def Variant.document (v : Variant) : Value := s.object (v.members s)

def Kind.word : Kind → String
  | .typeAlias => "type"
  | .enum => "enum"
  | .struct => "struct"
  | .function => "function"

/-- The members that a declaration of this body has beside those of every declaration. -/
def Body.members : Body → Members
  | typeAlias t => [("type", t.document s)]
  | enum variants => [("variants", .list (variants.map (Variant.document s)))]
  | struct kind fields =>
    [("fields", .list (fields.map (Field.document s))), ("struct_kind", kind)]
  | function abi params output =>
    [("params", .list (TypeExpr.paramDocuments s params)),
      ("output", TypeExpr.outputDocument s output), ("abi", abi)]

def Declaration.members (d : Declaration) : Members :=
  [("kind", .text d.body.kind.word), ("name", d.name)] ++ s.notes d.attrs d.span ++
    [("generics", .list d.generics), ("public", .bool d.isPublic)] ++ d.body.members s

/-- The document of a declaration. -/
def Declaration.document (d : Declaration) : Value := s.object (d.members s)

mutual

/-- The document of a declaration or module. -/
def Item.document : Item → Value
  | declaration d => d.document s
  | module name items =>
    s.object [("kind", .text "module"), ("name", name), ("items", .list (documents items))]

def Item.documents : List Item → List Value
  | [] => []
  | i :: is => i.document :: documents is

end

/-- The document of a module tree. -/
def Module.document (m : Module) : Value :=
  s.object [("name", m.name), ("items", .list (Item.documents s m.items))]

end Documents

namespace Source

variable (s : Style)

mutual

theorem typeOf_document : ∀ t : TypeExpr, typeOf (t.document s) = .ok t
  | .path segments generics => by
    rw [TypeExpr.document]
    exact typeOf_path (s.find?_arrange (by simp) rfl) (s.find?_arrange (by simp) rfl)
      (s.find?_arrange (by simp) rfl) (typeList_documents generics)
  | .pointer isMutable t => by
    rw [TypeExpr.document]
    exact typeOf_pointer (s.find?_arrange (by simp) rfl) (s.find?_arrange (by simp) rfl)
      (s.find?_arrange (by simp) rfl) (typeOf_document t)
  | .array t length => by
    rw [TypeExpr.document]
    exact typeOf_array (s.find?_arrange (by simp) rfl) (s.find?_arrange (by simp) rfl)
      (s.find?_arrange (by simp) rfl) (typeOf_document t)
  | .function params output lifetimes => by
    rw [TypeExpr.document]
    refine typeOf_function (s.find?_arrange (by simp) rfl) (s.find?_arrange (by simp) rfl)
      (paramList_documents params) ?_ (s.find?_arrange (by simp) rfl)
    exact outputAt_document output (s.find?_arrange (by simp) rfl)
  | .tuple ts => by
    rw [TypeExpr.document]
    exact typeOf_tuple (s.find?_arrange (by simp) rfl) (s.find?_arrange (by simp) rfl)
      (typeList_documents ts)
  | .never => by
    rw [TypeExpr.document]
    exact typeOf_never (s.find?_arrange (by simp) rfl)
  | .reference isMutable lifetime t => by
    rw [TypeExpr.document]
    exact typeOf_reference (s.find?_arrange (by simp) rfl) (s.find?_arrange (by simp) rfl)
      (s.find?_arrange (by simp) rfl) (s.find?_arrange (by simp) rfl) (typeOf_document t)
  | .slice t => by
    rw [TypeExpr.document]
    exact typeOf_slice (s.find?_arrange (by simp) rfl) (s.find?_arrange (by simp) rfl)
      (typeOf_document t)

theorem typeList_documents : ∀ ts : List TypeExpr, typeList (TypeExpr.documents s ts) = .ok ts
  | [] => by rw [TypeExpr.documents, typeList]
  | t :: ts => by
    rw [TypeExpr.documents, typeList, typeOf_document t, typeList_documents ts]
    rfl

theorem paramList_documents :
    ∀ ps : List Param, paramList (TypeExpr.paramDocuments s ps) = .ok ps
  | [] => by rw [TypeExpr.paramDocuments, paramList]
  | .mk pattern t :: ps => by
    have hparam : paramOf (s.object [("pattern", pattern), ("type", t.document s)]) =
        .ok (.mk pattern t) :=
      paramOf_object (s.find?_arrange (by simp) rfl) (s.find?_arrange (by simp) rfl)
        (typeOf_document t)
    rw [TypeExpr.paramDocuments, paramList, hparam, paramList_documents ps]
    rfl

theorem outputAt_document : ∀ (output : Option TypeExpr) {ms : Members},
    Value.find? ms "output" = some (TypeExpr.outputDocument s output) →
      outputAt "output" ms = .ok output
  | none, ms, h => by
    rw [outputAt_of_find? h, TypeExpr.outputDocument]
    rfl
  | some t, ms, h => by
    rw [outputAt_of_find? h, TypeExpr.outputDocument, typeOf_document t]
    have hnull : (t.document s).isNull = false := by
      cases t <;> rw [TypeExpr.document] <;> rfl
    rw [hnull]
    rfl

end

mutual

theorem attributeOf_document : ∀ a : Attribute, attributeOf (a.document s) = .ok a
  | .word n => by
    have hobject : attributeOf (s.object [("name", n)]) = .ok (.word n) :=
      attributeOf_word (s.find?_arrange (by simp) rfl) (s.find?_arrange (by simp) rfl)
        (s.find?_arrange (by simp) rfl)
    cases n with
    | text n =>
      rw [Attribute.document]
      split
      · rw [attributeOf]
      · exact hobject
    | _ =>
      rw [Attribute.document]
      · exact hobject
      · exact nofun
  | .list n items => by
    rw [Attribute.document]
    exact attributeOf_list (s.find?_arrange (by simp) rfl) (s.find?_arrange (by simp) rfl)
      (attributeList_documents items)
  | .nameValue n v => by
    rw [Attribute.document]
    exact attributeOf_nameValue (s.find?_arrange (by simp) rfl) (s.find?_arrange (by simp) rfl)
      (s.find?_arrange (by simp) rfl)

theorem attributeList_documents :
    ∀ as : List Attribute, attributeList (Attribute.documents s as) = .ok as
  | [] => by rw [Attribute.documents, attributeList]
  | a :: as => by
    rw [Attribute.documents, attributeList, attributeOf_document a, attributeList_documents as]
    rfl

end

theorem spanOf_document (span : Option Span) : spanOf (Span.document s span) = .ok span := by
  cases span with
  | none => rw [Span.document, spanOf]
  | some p =>
    exact spanOf_object (s.find?_arrange (by simp) rfl) (s.find?_arrange (by simp) rfl)
      (s.find?_arrange (by simp) rfl)

/-- An object that has the members of `Style.notes` has these attributes and this location. -/
theorem attributes_of_notes {ms : Members} (hn : (ms.map (·.1)).Nodup) {attrs : List Attribute}
    {span : Option Span} (h : s.notes attrs span ⊆ ms) :
    attributes (s.arrange ms) = .ok attrs ∧ spanAt (s.arrange ms) = .ok span := by
  have hfind : ∀ m ∈ s.notes attrs span, Value.find? (s.arrange ms) m.1 = some m.2 :=
    fun m hm => s.find?_arrange hn (find?_eq_some_of_mem hn (h hm))
  simp only [Style.notes, List.forall_mem_cons] at hfind
  obtain ⟨hattrs, hdocs, hspan, -⟩ := hfind
  constructor
  · rw [attributes_of_find? hattrs (attributeList_documents s _) hdocs, s.split_eq]
  · rw [spanAt, getD_of_find? hspan, spanOf_document]

theorem mapM_map_of_left_inverse {α : Type} {read : Value → Except Failure α} {write : α → Value}
    (h : ∀ x, read (write x) = .ok x) (xs : List α) : (xs.map write).mapM read = .ok xs :=
  Result.mapM_eq_ok.2 (List.forall₂_map_left_iff.2 (List.forall₂_same.2 fun x _ => h x))

theorem fieldOf_document (f : Field) : fieldOf (f.document s) = .ok f := by
  have hn : ((f.members s).map (·.1)).Nodup := by simp [Field.members, Style.notes]
  obtain ⟨hattrs, hspan⟩ := attributes_of_notes s hn (List.subset_append_right _ _)
  exact fieldOf_object (s.find?_arrange hn rfl) (s.find?_arrange hn rfl) (typeOf_document s f.type)
    hattrs hspan

theorem variantOf_document (v : Variant) : variantOf (v.document s) = .ok v := by
  have hn : ((v.members s).map (·.1)).Nodup := by simp [Variant.members, Style.notes]
  obtain ⟨hattrs, hspan⟩ := attributes_of_notes s hn (List.subset_append_right _ _)
  have hfields := fieldsAt_of_find? (s.find?_arrange hn rfl)
    (mapM_map_of_left_inverse (fieldOf_document s) v.fields)
  refine (variantOf_object (s.find?_arrange hn rfl) hfields hattrs hspan
    (s.find?_arrange hn rfl)).trans ?_
  obtain ⟨name, fields, attrs, discriminant, span⟩ := v
  cases discriminant <;> rfl

/-- An object that has the members of a body describes the body. -/
theorem bodyOf_members {ms : Members} (hn : (ms.map (·.1)).Nodup) (body : Body)
    (h : body.members s ⊆ ms) :
    bodyOf (.text body.kind.word) (s.arrange ms) = .ok body := by
  have hfind : ∀ m ∈ body.members s, Value.find? (s.arrange ms) m.1 = some m.2 :=
    fun m hm => s.find?_arrange hn (find?_eq_some_of_mem hn (h hm))
  cases body with
  | typeAlias t =>
    simp only [Body.members, List.forall_mem_cons] at hfind
    exact bodyOf_typeAlias hfind.1 (typeOf_document s t)
  | enum variants =>
    simp only [Body.members, List.forall_mem_cons] at hfind
    exact bodyOf_enum hfind.1 (mapM_map_of_left_inverse (variantOf_document s) variants)
  | struct kind fields =>
    simp only [Body.members, List.forall_mem_cons] at hfind
    exact bodyOf_struct
      (fieldsAt_of_find? hfind.1 (mapM_map_of_left_inverse (fieldOf_document s) fields)) hfind.2.1
  | function abi params output =>
    simp only [Body.members, List.forall_mem_cons] at hfind
    obtain ⟨hparams, houtput, habi, -⟩ := hfind
    exact bodyOf_function hparams (paramList_documents s params) (outputAt_document s output houtput)
      habi

theorem itemOf_document_declaration (d : Declaration) :
    itemOf (d.document s) = .ok (.declaration d) := by
  have hn : ((d.members s).map (·.1)).Nodup := by
    cases hb : d.body <;> simp [Declaration.members, Style.notes, hb, Body.members]
  obtain ⟨hattrs, hspan⟩ := attributes_of_notes s hn
    (List.Subset.trans (List.subset_append_right _ _)
      (List.Subset.trans (List.subset_append_left _ _) (List.subset_append_left _ _)))
  have hbody := bodyOf_members s hn d.body (List.subset_append_right _ _)
  have hne : Value.text d.body.kind.word ≠ .text "module" := by
    cases d.body.kind <;> simp [Kind.word]
  exact itemOf_declaration (s.find?_arrange hn rfl) hne
    (declarationOf_object (s.find?_arrange hn rfl) hattrs (s.find?_arrange hn rfl)
      (s.find?_arrange hn rfl) hspan hbody)

mutual

theorem itemOf_document : ∀ i : Item, itemOf (i.document s) = .ok i
  | .declaration d => by
    rw [Item.document]
    exact itemOf_document_declaration s d
  | .module name items => by
    rw [Item.document]
    exact itemOf_module (s.find?_arrange (by simp) rfl) (s.find?_arrange (by simp) rfl)
      (s.find?_arrange (by simp) rfl) (itemList_documents items)

theorem itemList_documents : ∀ is : List Item, itemList (Item.documents s is) = .ok is
  | [] => by rw [Item.documents, itemList]
  | i :: is => by
    rw [Item.documents, itemList, itemOf_document i, itemList_documents is]
    rfl

end

/-- Every module tree is read back from each of its documents. -/
theorem moduleOf_document (m : Module) : moduleOf (m.document s) = .ok m :=
  moduleOf_object (s.find?_arrange (by simp) rfl) (s.find?_arrange (by simp) rfl)
    (itemList_documents s m.items)

end Source

end FfiHeaders
