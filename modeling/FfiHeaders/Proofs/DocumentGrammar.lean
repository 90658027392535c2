import FfiHeaders.Proofs.DocumentWriting

/-!
# The documents that are read

What a document must look like to describe a module tree, key by key. Reading checks the kinds and the
required keys itself, but takes for granted that sequences are lists and that some parts are objects.
Where that holds, a document is read exactly if it looks so, and is reported as faulty otherwise.
-/
namespace FfiHeaders

namespace Grammar

/-- The parts of a document. -/
inductive Role
  | module
  | item
  | field
  | variant
  | param
  | type
  | attribute
  | span

/-- What may stand under a key. -/
inductive Content
  /-- Any value. -/
  | plain
  /-- A list of any values. -/
  | list
  | part (role : Role)
  /-- A part, or null where there is none. -/
  | optional (role : Role)
  | parts (role : Role)

/-- A key of an object. -/
structure Slot where
  key : String
  isRequired : Bool
  content : Content

/-- The keys of all that carries attributes and a location. -/
def noteSlots : List Slot :=
  [⟨"attrs", false, .parts .attribute⟩, ⟨"docs", false, .list⟩, ⟨"span", false, .optional .span⟩]

/-- The keys of a type of the given kind. -/
def typeSlots : Value → List Slot
  | .text "path" => [⟨"segments", true, .list⟩, ⟨"generic_args", false, .parts .type⟩]
  | .text "ptr" => [⟨"inner", true, .part .type⟩]
  | .text "array" => [⟨"element", true, .part .type⟩, ⟨"length", true, .plain⟩]
  | .text "fn" =>
    [⟨"params", false, .parts .param⟩, ⟨"output", false, .optional .type⟩,
      ⟨"lifetimes", false, .list⟩]
  | .text "tuple" => [⟨"elements", false, .parts .type⟩]
  | .text "ref" => [⟨"inner", true, .part .type⟩]
  | .text "slice" => [⟨"element", true, .part .type⟩]
  | _ => []

/-- The keys that a declaration of the given kind has beside those of every declaration. -/
def bodySlots : Value → List Slot
  | .text "type" => [⟨"type", true, .part .type⟩]
  | .text "enum" => [⟨"variants", false, .parts .variant⟩]
  | .text "struct" => [⟨"fields", false, .parts .field⟩]
  | .text "function" => [⟨"params", false, .parts .param⟩, ⟨"output", false, .optional .type⟩]
  | _ => []

def moduleSlots : List Slot := [⟨"name", true, .plain⟩, ⟨"items", false, .parts .item⟩]

def itemSlots : Value → List Slot
  | .text "module" => moduleSlots
  | kind =>
    [⟨"name", true, .plain⟩] ++ noteSlots ++ [⟨"generics", false, .list⟩] ++ bodySlots kind

namespace Role

/-- The kinds of the objects of a role, none if they are all of one kind. -/
def kinds : Role → List String
  | .item => ["module", "type", "enum", "struct", "function"]
  | .type => ["path", "ptr", "array", "fn", "tuple", "never", "ref", "slice"]
  | _ => []

/-- The value of the key `kind` is right for an object of the role. -/
def Knows (role : Role) (kind : Option Value) : Prop :=
  role.kinds = [] ∨ ∃ k ∈ role.kinds, kind = some (.text k)

/-- The keys of an object of the role. -/
def slots : Role → Option Value → List Slot
  | .module, _ => moduleSlots
  | .item, kind => (kind.map itemSlots).getD []
  | .field, _ => ⟨"type", true, .part .type⟩ :: noteSlots
  | .variant, _ => [⟨"name", true, .plain⟩, ⟨"fields", false, .parts .field⟩] ++ noteSlots
  | .param, _ => [⟨"type", true, .part .type⟩]
  | .type, kind => (kind.map typeSlots).getD []
  | .attribute, _ => [⟨"name", true, .plain⟩, ⟨"items", false, .parts .attribute⟩]
  | .span, _ => [⟨"file", true, .plain⟩, ⟨"line", true, .plain⟩]

/-- A bare text may stand for the part. -/
def allowsText : Role → Bool
  | .type | .attribute => true
  | _ => false

/-- What is no object is told apart in this role. -/
def checksShape : Role → Bool
  | .module | .item | .type | .attribute => true
  | _ => false

end Role

/-- The value has lists where sequences are due, and objects where the shape is not checked. -/
inductive IsSane : Content → Value → Prop
  | plain (v : Value) : IsSane .plain v
  | list (vs : List Value) : IsSane .list (.list vs)
  | parts {r : Role} {vs : List Value} (h : ∀ v ∈ vs, IsSane (.part r) v) :
    IsSane (.parts r) (.list vs)
  | null (r : Role) : IsSane (.optional r) .null
  | some {r : Role} {v : Value} (h : IsSane (.part r) v) : IsSane (.optional r) v
  | bare {r : Role} {v : Value} (hr : r.checksShape) (hv : ∀ ms, v ≠ .object ms) :
    IsSane (.part r) v
  | object {r : Role} {ms : Members}
    (h : ∀ s ∈ r.slots (Value.find? ms "kind"), ∀ v, Value.find? ms s.key = .some v →
      IsSane s.content v) :
    IsSane (.part r) (.object ms)

/-- The value describes what may stand there. -/
inductive Conforms : Content → Value → Prop
  | plain (v : Value) : Conforms .plain v
  | list (vs : List Value) : Conforms .list (.list vs)
  | parts {r : Role} {vs : List Value} (h : ∀ v ∈ vs, Conforms (.part r) v) :
    Conforms (.parts r) (.list vs)
  | null (r : Role) : Conforms (.optional r) .null
  | some {r : Role} {v : Value} (h : Conforms (.part r) v) : Conforms (.optional r) v
  | text {r : Role} (hr : r.allowsText) (s : String) : Conforms (.part r) (.text s)
  | object {r : Role} {ms : Members} (hkind : r.Knows (Value.find? ms "kind"))
    (hrequired : ∀ s ∈ r.slots (Value.find? ms "kind"), s.isRequired →
      (Value.find? ms s.key).isSome)
    (h : ∀ s ∈ r.slots (Value.find? ms "kind"), ∀ v, Value.find? ms s.key = .some v →
      Conforms s.content v) :
    Conforms (.part r) (.object ms)

/-- The members have what the key asks for. -/
def Slot.Fits (s : Slot) (ms : Members) : Prop :=
  (s.isRequired → (Value.find? ms s.key).isSome) ∧
    ∀ v, Value.find? ms s.key = some v → Conforms s.content v

theorem conforms_object_iff {r : Role} {ms : Members} :
    Conforms (.part r) (.object ms) ↔
      r.Knows (Value.find? ms "kind") ∧ ∀ s ∈ r.slots (Value.find? ms "kind"), s.Fits ms := by
  constructor
  · rintro ⟨⟩
    next hkind hrequired h => exact ⟨hkind, fun s hs => ⟨hrequired s hs, h s hs⟩⟩
  · rintro ⟨hkind, h⟩
    exact .object hkind (fun s hs => (h s hs).1) fun s hs => (h s hs).2

theorem conforms_parts_iff {r : Role} {vs : List Value} :
    Conforms (.parts r) (.list vs) ↔ ∀ v ∈ vs, Conforms (.part r) v := by
  constructor
  · rintro ⟨⟩
    assumption
  · exact .parts

theorem conforms_optional_iff {r : Role} {v : Value} :
    Conforms (.optional r) v ↔ v = .null ∨ Conforms (.part r) v := by
  constructor
  · rintro (_ | _)
    · exact .inl rfl
    · exact .inr ‹_›
  · rintro (rfl | h)
    · exact .null r
    · exact .some h

end Grammar

namespace Source

open Grammar

/-! ### Results that tell what conforms -/

section Accepts

variable {α β : Type} {r : Except Failure α} {p q : Prop}

/-- The result is there if `p` holds, and else a fault of the document is. -/
def Accepts (r : Except Failure α) (p : Prop) : Prop :=
  (p → ∃ x, r = .ok x) ∧ (¬p → ∃ fault, r = .error (.document fault))

namespace Accepts

theorem ok (x : α) (h : p) : Accepts (.ok x) p := ⟨fun _ => ⟨x, rfl⟩, fun hn => absurd h hn⟩

theorem fault (f : DocumentFault) (h : ¬p) : Accepts (.error (.document f) : Except Failure α) p :=
  ⟨fun hp => absurd hp h, fun _ => ⟨f, rfl⟩⟩

theorem congr (h : Accepts r p) (hpq : p ↔ q) : Accepts r q := by
  rwa [← hpq]

theorem bind {f : α → Except Failure β} (h : Accepts r p) (hf : ∀ x, Accepts (f x) q) :
    Accepts (r >>= f) (p ∧ q) := by
  constructor
  · rintro ⟨hp, hq⟩
    obtain ⟨x, rfl⟩ := h.1 hp
    exact (hf x).1 hq
  · intro hn
    by_cases hp : p
    · obtain ⟨x, rfl⟩ := h.1 hp
      exact (hf x).2 fun hq => hn ⟨hp, hq⟩
    · obtain ⟨f, rfl⟩ := h.2 hp
      exact ⟨f, rfl⟩

theorem of_ok_bind {x : β} {f : β → Except Failure α} (h : Accepts (f x) p) :
    Accepts ((.ok x : Except Failure β) >>= f) p := h

/-- A last step that cannot fail. -/
theorem map (f : α → β) (h : Accepts r p) : Accepts (r >>= fun x => pure (f x)) p :=
  (h.bind fun x => .ok (f x) trivial).congr (iff_of_eq (and_true p))

theorem mapM {f : Value → Except Failure α} {p : Value → Prop} {vs : List Value}
    (h : ∀ v ∈ vs, Accepts (f v) (p v)) : Accepts (vs.mapM f) (∀ v ∈ vs, p v) := by
  induction vs with
  | nil => exact .ok [] nofun
  | cons v vs ih =>
    obtain ⟨hv, hvs⟩ := List.forall_mem_cons.1 h
    rw [List.mapM_cons]
    exact (hv.bind fun x => (ih hvs).map (x :: ·)).congr List.forall_mem_cons.symm

end Accepts

end Accepts

/-! ### Reading one key -/

/-- What reading a part of the role gives. -/
def Result : Role → Type
  | .module => Module
  | .item => Item
  | .field => Field
  | .variant => Variant
  | .param => Param
  | .type => TypeExpr
  | .attribute => Attribute
  | .span => Option Span

def readPart : (role : Role) → Value → Except Failure (Result role)
  | .module => moduleOf
  | .item => itemOf
  | .field => fieldOf
  | .variant => variantOf
  | .param => paramOf
  | .type => typeOf
  | .attribute => attributeOf
  | .span => spanOf

/-- Reading tells what conforms in this role. -/
def ReadsPart (role : Role) (v : Value) : Prop := Accepts (readPart role v) (Conforms (.part role) v)

/-- Reading tells what conforms under a key. -/
def Reads : Content → Value → Prop
  | .plain, _ => True
  | .list, v => ∃ vs, v = .list vs
  | .part role, v => ReadsPart role v
  | .optional role, v => v ≠ .null → ReadsPart role v
  | .parts role, v => ∃ vs, v = .list vs ∧ ∀ x ∈ vs, ReadsPart role x

/-- Reading tells what conforms under the key of an object. -/
def ReadsSlot (ms : Members) (s : Slot) : Prop :=
  ∀ v, Value.find? ms s.key = some v → Reads s.content v

section Slots

variable {α : Type} {ms : Members} {key : String} {role : Role}

/-- The value of a key is read, and for none another result is there or a fault. -/
theorem accepts_elim {isRequired : Bool} {c : Content} {read : Value → Except Failure α}
    {absent : Except Failure α} (habsent : Accepts absent (isRequired = false))
    (h : ∀ v, Value.find? ms key = some v → Accepts (read v) (Conforms c v)) :
    Accepts ((Value.find? ms key).elim absent read) (Slot.Fits ⟨key, isRequired, c⟩ ms) := by
  unfold Slot.Fits
  cases hv : Value.find? ms key with
  | none => exact habsent.congr (by simp)
  | some v => exact (h v hv).congr (by simp)

theorem accepts_parts {read : Value → Except Failure (List (Result role))}
    (hread : ∀ vs, read (.list vs) = vs.mapM (readPart role)) {v : Value} (h : Reads (.parts role) v) :
    Accepts (read v) (Conforms (.parts role) v) := by
  obtain ⟨vs, rfl, hvs⟩ := h
  rw [hread]
  exact (Accepts.mapM hvs).congr conforms_parts_iff.symm

/-- A list of parts, none if its key is absent. -/
theorem accepts_partsAt {read : Value → Except Failure (List (Result role))}
    (hread : ∀ vs, read (.list vs) = vs.mapM (readPart role))
    (h : ReadsSlot ms ⟨key, false, .parts role⟩) :
    Accepts ((Value.find? ms key).elim (.ok []) read) (Slot.Fits ⟨key, false, .parts role⟩ ms) :=
  accepts_elim (.ok [] rfl) fun v hv => accepts_parts hread (h v hv)

/-- A part for which null is as good as no key. -/
theorem accepts_optionalAt {read : Value → Except Failure α} {none : α}
    (hnull : read .null = .ok none)
    (h : ∀ v, Value.find? ms key = some v → v ≠ .null →
      Accepts (read v) (Conforms (.part role) v)) :
    Accepts ((Value.find? ms key).elim (.ok none) read)
      (Slot.Fits ⟨key, false, .optional role⟩ ms) := by
  refine accepts_elim (.ok none rfl) fun v hv => ?_
  by_cases hne : v = .null
  · rw [hne, hnull]
    exact .ok none (.null role)
  · refine (h v hv hne).congr ?_
    rw [conforms_optional_iff, or_iff_right hne]

/-- A list that is read element by element. -/
theorem eq_mapM {f : Value → Except Failure α} {g : List Value → Except Failure (List α)}
    (hnil : g [] = .ok [])
    (hcons : ∀ v vs, g (v :: vs) = do
      let x ← f v
      return x :: (← g vs)) (vs : List Value) : g vs = vs.mapM f := by
  induction vs with
  | nil => exact hnil
  | cons v vs ih => rw [hcons, ih, List.mapM_cons]

theorem typeList_eq (vs : List Value) : typeList vs = vs.mapM typeOf :=
  eq_mapM (by rw [typeList]) (fun v vs => by rw [typeList]) vs

theorem paramList_eq (vs : List Value) : paramList vs = vs.mapM paramOf :=
  eq_mapM (by rw [paramList]) (fun v vs => by rw [paramList]) vs

theorem attributeList_eq (vs : List Value) : attributeList vs = vs.mapM attributeOf :=
  eq_mapM (by rw [attributeList]) (fun v vs => by rw [attributeList]) vs

theorem itemList_eq (vs : List Value) : itemList vs = vs.mapM itemOf :=
  eq_mapM (by rw [itemList]) (fun v vs => by rw [itemList]) vs

theorem accepts_require (what : String) :
    Accepts (require ms key what) (Slot.Fits ⟨key, true, .plain⟩ ms) := by
  have hlookup : require ms key what =
      (Value.find? ms key).elim (.error (missing what key ms)) .ok := by
    rw [require]
    cases Value.find? ms key <;> rfl
  rw [hlookup]
  exact accepts_elim (.fault _ (by simp)) fun v _ => .ok v (.plain v)

theorem accepts_elements (what : String) (h : ReadsSlot ms ⟨key, true, .list⟩) :
    Accepts (require ms key what >>= elements) (Slot.Fits ⟨key, true, .list⟩ ms) := by
  have hlookup : (require ms key what >>= elements) =
      (Value.find? ms key).elim (.error (missing what key ms)) elements := by
    rw [require]
    cases Value.find? ms key <;> rfl
  rw [hlookup]
  refine accepts_elim (.fault _ (by simp)) fun v hv => ?_
  obtain ⟨vs, rfl⟩ := h v hv
  exact .ok vs (.list vs)

theorem elementsAt_eq (key : String) (ms : Members) :
    elementsAt ms key = (Value.find? ms key).elim (.ok []) elements := by
  rw [elementsAt, Value.getD]
  cases Value.find? ms key <;> rfl

theorem accepts_elementsAt (h : ReadsSlot ms ⟨key, false, .list⟩) :
    Accepts (elementsAt ms key) (Slot.Fits ⟨key, false, .list⟩ ms) := by
  rw [elementsAt_eq]
  refine accepts_elim (.ok [] rfl) fun v hv => ?_
  obtain ⟨vs, rfl⟩ := h v hv
  exact .ok vs (.list vs)

theorem accepts_typeAt (what : String) (h : ReadsSlot ms ⟨key, true, .part .type⟩) :
    Accepts (typeAt key what ms ms) (Slot.Fits ⟨key, true, .part .type⟩ ms) := by
  rw [typeAt_eq]
  exact accepts_elim (.fault _ (by simp)) h

theorem accepts_typesAt (h : ReadsSlot ms ⟨key, false, .parts .type⟩) :
    Accepts (typesAt key ms) (Slot.Fits ⟨key, false, .parts .type⟩ ms) := by
  rw [typesAt_eq]
  exact accepts_partsAt (fun vs => by rw [typesOf, typeList_eq]; rfl) h

theorem accepts_paramsAt (h : ReadsSlot ms ⟨key, false, .parts .param⟩) :
    Accepts (paramsAt key ms) (Slot.Fits ⟨key, false, .parts .param⟩ ms) := by
  rw [paramsAt_eq]
  exact accepts_partsAt (fun vs => by rw [paramsOf, paramList_eq]; rfl) h

theorem accepts_itemsAt (h : ReadsSlot ms ⟨key, false, .parts .item⟩) :
    Accepts (itemsAt key ms) (Slot.Fits ⟨key, false, .parts .item⟩ ms) := by
  rw [itemsAt_eq]
  exact accepts_partsAt (fun vs => by rw [itemsOf, itemList_eq]; rfl) h

theorem accepts_attributesOf {v : Value} (h : Reads (.parts .attribute) v) :
    Accepts (attributesOf v) (Conforms (.parts .attribute) v) :=
  accepts_parts (fun vs => by rw [attributesOf, attributeList_eq]; rfl) h

/-- Members whose values are read one by one. -/
theorem accepts_mapM (h : ReadsSlot ms ⟨key, false, .parts role⟩) :
    Accepts (elementsAt ms key >>= fun vs => vs.mapM (readPart role))
      (Slot.Fits ⟨key, false, .parts role⟩ ms) := by
  have hlookup : (elementsAt ms key >>= fun vs => vs.mapM (readPart role)) =
      (Value.find? ms key).elim (.ok [])
        fun v => elements v >>= fun vs => vs.mapM (readPart role) := by
    rw [elementsAt_eq]
    cases Value.find? ms key <;> rfl
  rw [hlookup]
  exact accepts_partsAt (fun vs => rfl) h

theorem accepts_outputAt (h : ReadsSlot ms ⟨key, false, .optional .type⟩) :
    Accepts (outputAt key ms) (Slot.Fits ⟨key, false, .optional .type⟩ ms) := by
  rw [outputAt_eq]
  refine accepts_optionalAt rfl fun v hv hne => ?_
  have hnull : v.isNull = false := by cases v <;> simp_all [Value.isNull]
  rw [hnull]
  exact .map some (h v hv hne)

theorem accepts_spanAt (h : ReadsSlot ms ⟨"span", false, .optional .span⟩) :
    Accepts (spanAt ms) (Slot.Fits ⟨"span", false, .optional .span⟩ ms) := by
  have hlookup : spanAt ms = (Value.find? ms "span").elim (.ok none) spanOf := by
    rw [spanAt, Value.getD]
    cases Value.find? ms "span" <;> rfl
  rw [hlookup]
  exact accepts_optionalAt rfl h

theorem accepts_attributes (hattrs : ReadsSlot ms ⟨"attrs", false, .parts .attribute⟩)
    (hdocs : ReadsSlot ms ⟨"docs", false, .list⟩) :
    Accepts (attributes ms) (Slot.Fits ⟨"attrs", false, .parts .attribute⟩ ms ∧
      Slot.Fits ⟨"docs", false, .list⟩ ms) := by
  have hlookup : (attributesAt? "attrs" ms).getD (.ok []) =
      (Value.find? ms "attrs").elim (.ok []) attributesOf := by
    rw [attributesAt?_eq]
    cases Value.find? ms "attrs" <;> rfl
  rw [attributes, hlookup]
  exact (accepts_elim (.ok [] rfl) fun v hv => accepts_attributesOf (hattrs v hv)).bind fun attrs =>
    (accepts_elementsAt hdocs).map fun docs => attrs ++ docs.map Attribute.ofDoc

end Slots

/-! ### Reading objects -/

section Objects

variable {ms : Members}

/-- An object of a role with kinds is read as its kind asks, if that is there and known. -/
theorem readsPart_of_kinds {role : Role} (hrole : role.kinds ≠ [])
    (hmissing : Value.find? ms "kind" = none →
      ∃ fault, readPart role (.object ms) = .error (.document fault))
    (hunknown : ∀ kind, Value.find? ms "kind" = some kind → (∀ k ∈ role.kinds, kind ≠ .text k) →
      ∃ fault, readPart role (.object ms) = .error (.document fault))
    (hknown : ∀ k ∈ role.kinds, Value.find? ms "kind" = some (.text k) →
      Accepts (readPart role (.object ms)) (∀ s ∈ role.slots (some (.text k)), s.Fits ms)) :
    ReadsPart role (.object ms) := by
  have hfault : (∃ fault, readPart role (.object ms) = .error (.document fault)) →
      ¬role.Knows (Value.find? ms "kind") → ReadsPart role (.object ms) := by
    rintro ⟨fault, hread⟩ hkind
    rw [ReadsPart, hread]
    exact .fault fault fun h => hkind (conforms_object_iff.1 h).1
  cases hk : Value.find? ms "kind" with
  | none =>
    refine hfault (hmissing hk) ?_
    rw [hk]
    rintro (h | ⟨k, -, ⟨⟩⟩)
    exact hrole h
  | some kind =>
    by_cases hkind : ∃ k ∈ role.kinds, kind = .text k
    · obtain ⟨k, hmem, rfl⟩ := hkind
      refine (hknown k hmem hk).congr ?_
      rw [conforms_object_iff, hk, and_iff_right]
      exact .inr ⟨k, hmem, rfl⟩
    · refine hfault (hunknown kind hk fun k hmem heq => hkind ⟨k, hmem, heq⟩) ?_
      rw [hk]
      rintro (h | ⟨k, hmem, ⟨⟩⟩)
      · exact hrole h
      · exact hkind ⟨k, hmem, rfl⟩

-- once the kind is known, the keys that it asks for are a list to go through
attribute [local simp] Role.slots typeSlots bodySlots itemSlots moduleSlots noteSlots Role.kinds

theorem accepts_typeOf_of_kind {k : String} (hmem : k ∈ Role.type.kinds)
    (hk : Value.find? ms "kind" = some (.text k))
    (h : ∀ s ∈ Role.type.slots (some (.text k)), ReadsSlot ms s) :
    Accepts (typeOf (.object ms)) (∀ s ∈ Role.type.slots (some (.text k)), s.Fits ms) := by
  rw [typeOf, require_of_find? _ hk]
  refine .of_ok_bind ?_
  simp only [Role.kinds, List.mem_cons, List.not_mem_nil, or_false] at hmem
  rcases hmem with rfl | rfl | rfl | rfl | rfl | rfl | rfl | rfl
  · obtain ⟨hsegments, hgenerics⟩ := by simpa using h
    rw [← bind_assoc]
    exact .congr (.bind (accepts_elements _ hsegments) fun _ => .map _ (accepts_typesAt hgenerics))
      (by simp)
  · have hinner := by simpa using h
    exact .congr (.map _ (accepts_typeAt _ hinner)) (by simp)
  · obtain ⟨helement, -⟩ := by simpa using h
    exact .congr (.bind (accepts_typeAt _ helement) fun _ => .map _ (accepts_require _)) (by simp)
  · obtain ⟨hparams, houtput, hlifetimes⟩ := by simpa using h
    exact .congr (.bind (accepts_paramsAt hparams) fun _ =>
      .bind (accepts_outputAt houtput) fun _ => .map _ (accepts_elementsAt hlifetimes)) (by simp)
  · have helements := by simpa using h
    exact .congr (.map _ (accepts_typesAt helements)) (by simp)
  · exact .ok _ (by simp)
  · have hinner := by simpa using h
    exact .congr (.map _ (accepts_typeAt _ hinner)) (by simp)
  · have helement := by simpa using h
    exact .congr (.map _ (accepts_typeAt _ helement)) (by simp)

theorem readsPart_type (h : ∀ s ∈ Role.type.slots (Value.find? ms "kind"), ReadsSlot ms s) :
    ReadsPart .type (.object ms) := by
  refine readsPart_of_kinds (by simp) (fun hk => ?_) (fun kind hk hkind => ?_) fun k hmem hk => ?_
  · exact ⟨_, by rw [readPart, typeOf, require, hk]; rfl⟩
  · refine ⟨.unknownType kind, ?_⟩
    rw [readPart, typeOf, require_of_find? _ hk]
    dsimp only [bind, Except.bind]
    split
    all_goals first | rfl | exact absurd rfl (hkind _ (by simp))
  · rw [hk] at h
    exact accepts_typeOf_of_kind hmem hk h

theorem readsPart_param (h : ∀ s ∈ Role.param.slots (Value.find? ms "kind"), ReadsSlot ms s) :
    ReadsPart .param (.object ms) := by
  have htype := by simpa using h
  refine Accepts.congr ?_ conforms_object_iff.symm
  rw [readPart, paramOf]
  exact .congr (.map _ (accepts_typeAt _ htype)) (by simp [Role.Knows])

theorem readsPart_attribute
    (h : ∀ s ∈ Role.attribute.slots (Value.find? ms "kind"), ReadsSlot ms s) :
    ReadsPart .attribute (.object ms) := by
  obtain ⟨-, hitems⟩ := by simpa using h
  refine Accepts.congr ?_ conforms_object_iff.symm
  rw [readPart, attributeOf, attributesAt?_eq]
  refine .congr (.bind (accepts_require _) (q := Slot.Fits ⟨"items", false, .parts .attribute⟩ ms)
    fun name => ?_) (by simp [Role.Knows])
  unfold Slot.Fits
  cases hfind : Value.find? ms "items" with
  | none =>
    -- a value beside the name is kept as it is
    cases Value.find? ms "value" <;> exact .ok _ (by simp)
  | some v => exact .congr (.map _ (accepts_attributesOf (hitems v hfind))) (by simp)

theorem readsPart_span (ms : Members) : ReadsPart .span (.object ms) := by
  refine Accepts.congr ?_ conforms_object_iff.symm
  rw [readPart, spanOf]
  exact .congr (.bind (accepts_require _) fun _ => .map _ (accepts_require _))
    (by simp [Role.Knows])

theorem readsPart_field (h : ∀ s ∈ Role.field.slots (Value.find? ms "kind"), ReadsSlot ms s) :
    ReadsPart .field (.object ms) := by
  obtain ⟨htype, hattrs, hdocs, hspan⟩ := by simpa using h
  refine Accepts.congr ?_ conforms_object_iff.symm
  rw [readPart, fieldOf]
  exact .congr (.bind (accepts_typeAt _ htype) fun _ =>
    .bind (accepts_attributes hattrs hdocs) fun _ => .map _ (accepts_spanAt hspan))
    (by simp [Role.Knows, and_assoc])

theorem readsPart_variant
    (h : ∀ s ∈ Role.variant.slots (Value.find? ms "kind"), ReadsSlot ms s) :
    ReadsPart .variant (.object ms) := by
  obtain ⟨-, hfields, hattrs, hdocs, hspan⟩ := by simpa using h
  refine Accepts.congr ?_ conforms_object_iff.symm
  rw [readPart, variantOf]
  exact .congr (.bind (accepts_require _) fun _ => .bind (accepts_mapM hfields) fun _ =>
    .bind (accepts_attributes hattrs hdocs) fun _ => .map _ (accepts_spanAt hspan))
    (by simp [Role.Knows, and_assoc])

theorem readsPart_module (h : ∀ s ∈ Role.module.slots (Value.find? ms "kind"), ReadsSlot ms s) :
    ReadsPart .module (.object ms) := by
  obtain ⟨-, hitems⟩ := by simpa using h
  refine Accepts.congr ?_ conforms_object_iff.symm
  rw [readPart, moduleOf]
  exact .congr (.bind (accepts_require _) fun _ => .map _ (accepts_itemsAt hitems))
    (by simp [Role.Knows])

theorem accepts_bodyOf_of_kind {k : String} (hmem : k ∈ Role.item.kinds) (hne : k ≠ "module")
    (h : ∀ s ∈ bodySlots (.text k), ReadsSlot ms s) :
    Accepts (bodyOf (.text k) ms) (∀ s ∈ bodySlots (.text k), s.Fits ms) := by
  simp only [Role.kinds, List.mem_cons, List.not_mem_nil, or_false] at hmem
  rcases hmem with rfl | rfl | rfl | rfl | rfl
  · exact absurd rfl hne
  · have htype := by simpa using h
    exact .congr (.map Body.typeAlias (accepts_typeAt _ htype)) (by simp)
  · have hvariants := by simpa using h
    change Accepts (elementsAt ms "variants" >>= fun vs => vs.mapM variantOf >>= fun variants =>
      pure (Body.enum variants)) _
    rw [← bind_assoc]
    exact .congr (.map _ (accepts_mapM hvariants)) (by simp)
  · have hfields := by simpa using h
    exact .congr (.map _ (accepts_mapM hfields)) (by simp)
  · obtain ⟨hparams, houtput⟩ := by simpa using h
    exact .congr (.bind (accepts_paramsAt hparams) fun _ => .map _ (accepts_outputAt houtput))
      (by simp)

theorem bodyOf_of_unknown {kind : Value} (h : ∀ k ∈ Role.item.kinds, kind ≠ .text k) :
    bodyOf kind ms = .error (.document (.unknownItem kind)) := by
  unfold bodyOf
  split
  all_goals first | rfl | exact absurd rfl (h _ (by simp))

theorem itemSlots_of_ne {kind : Value} (h : kind ≠ .text "module") : itemSlots kind =
    [⟨"name", true, .plain⟩] ++ noteSlots ++ [⟨"generics", false, .list⟩] ++ bodySlots kind := by
  unfold itemSlots
  split
  · exact absurd rfl h
  · rfl

/-- A declaration is read if its body is, and the keys that every declaration has. -/
theorem accepts_itemOf {kind : Value} {p : Prop} (hk : Value.find? ms "kind" = some kind)
    (hne : kind ≠ .text "module") (h : ∀ s ∈ itemSlots kind, ReadsSlot ms s)
    (hbody : (∀ s ∈ bodySlots kind, ReadsSlot ms s) → Accepts (bodyOf kind ms)
      (p ∧ ∀ s ∈ bodySlots kind, s.Fits ms)) :
    Accepts (itemOf (.object ms)) (p ∧ ∀ s ∈ itemSlots kind, s.Fits ms) := by
  rw [itemSlots_of_ne hne] at h ⊢
  simp only [List.forall_mem_append] at h ⊢
  obtain ⟨⟨⟨-, hnotes⟩, hgenerics⟩, hslots⟩ := h
  obtain ⟨hattrs, hdocs, hspan⟩ := by simpa using hnotes
  have hgenerics := by simpa using hgenerics
  rw [itemOf, require_of_find? _ hk]
  refine .of_ok_bind ?_
  split
  · exact absurd rfl hne
  · refine .congr (.map _ (.bind (accepts_require _) fun _ =>
      .bind (accepts_attributes hattrs hdocs) fun _ => .bind (accepts_elementsAt hgenerics) fun _ =>
        .bind (accepts_spanAt hspan) fun _ => .map _ (hbody hslots))) ?_
    rw [List.forall_mem_singleton, List.forall_mem_singleton, noteSlots, List.forall_mem_cons,
      List.forall_mem_cons, List.forall_mem_singleton]
    -- the generics are read between the documentation and the location
    tauto

theorem readsPart_item (h : ∀ s ∈ Role.item.slots (Value.find? ms "kind"), ReadsSlot ms s) :
    ReadsPart .item (.object ms) := by
  refine readsPart_of_kinds (by simp) (fun hk => ?_) (fun kind hk hkind => ?_) fun k hmem hk => ?_
  · exact ⟨_, by rw [readPart, itemOf, require, hk]; rfl⟩
  · rw [hk] at h
    refine (accepts_itemOf (p := False) hk (hkind _ (by simp)) h fun _ => ?_).2 (by simp)
    rw [bodyOf_of_unknown hkind]
    exact .fault _ (by simp)
  · rw [hk] at h
    by_cases hmodule : k = "module"
    · subst hmodule
      obtain ⟨-, hitems⟩ := by simpa using h
      rw [readPart, itemOf, require_of_find? _ hk]
      refine .of_ok_bind ?_
      exact .congr (.bind (accepts_require _) fun _ => .map _ (accepts_itemsAt hitems)) (by simp)
    · have hne : Value.text k ≠ .text "module" := fun heq => hmodule (Value.text.inj heq)
      refine (accepts_itemOf (p := True) hk hne h fun hslots => ?_).congr (iff_of_eq (true_and _))
      exact (accepts_bodyOf_of_kind hmem hmodule hslots).congr (iff_of_eq (true_and _)).symm

end Objects

/-- What is no object is read where a text is allowed and it is one. -/
theorem readsPart_of_bare {role : Role} {v : Value} (hrole : role.checksShape)
    (hv : ∀ ms, v ≠ .object ms) : ReadsPart role v := by
  have hconforms : Conforms (.part role) v ↔ role.allowsText ∧ v.isText := by
    constructor
    · rintro (_ | _)
      · exact ⟨‹_›, rfl⟩
      · exact absurd rfl (hv _)
    · rintro ⟨hr, ht⟩
      cases v with
      | text s => exact .text hr s
      | _ => cases ht
  refine Accepts.congr ?_ hconforms.symm
  cases role with
  | module | item =>
    cases v with
    | object ms => exact absurd rfl (hv ms)
    | _ => exact .fault _ (by simp [Role.allowsText])
  | field | variant | param | span => cases hrole
  | _ =>
    cases v with
    | object ms => exact absurd rfl (hv ms)
    | text s => exact .ok _ ⟨rfl, rfl⟩
    | _ => exact .fault _ (by simp [Value.isText])

/-- Reading tells whether a sane document conforms. -/
theorem reads_of_isSane {c : Content} {v : Value} (h : IsSane c v) : Reads c v := by
  induction h with
  | plain v => trivial
  | list vs => exact ⟨vs, rfl⟩
  | parts _ ih => exact ⟨_, rfl, ih⟩
  | null r => exact fun hne => absurd rfl hne
  | some _ ih => exact fun _ => ih
  | bare hr hv => exact readsPart_of_bare hr hv
  | @object role ms _ ih =>
    match role with
    | .module => exact readsPart_module ih
    | .item => exact readsPart_item ih
    | .field => exact readsPart_field ih
    | .variant => exact readsPart_variant ih
    | .param => exact readsPart_param ih
    | .type => exact readsPart_type ih
    | .attribute => exact readsPart_attribute ih
    | .span => exact readsPart_span ms

/-- Of the sane documents exactly those that conform describe a module, and all others are reported as
faulty. -/
theorem moduleOf_of_isSane {v : Value} (h : IsSane (.part .module) v) :
    ((∃ m, moduleOf v = .ok m) ↔ Conforms (.part .module) v) ∧
      (¬Conforms (.part .module) v → ∃ fault, moduleOf v = .error (.document fault)) := by
  obtain ⟨haccepted, hfault⟩ : Accepts (moduleOf v) (Conforms (.part .module) v) := reads_of_isSane h
  refine ⟨⟨fun ⟨m, hm⟩ => ?_, haccepted⟩, hfault⟩
  by_contra hconforms
  obtain ⟨fault, herror⟩ := hfault hconforms
  rw [hm] at herror
  cases herror

/-- The document of a struct whose second field has a type of the given kind. -/
def pairDocument (kind : String) : Value :=
  .object [("name", .text "ffi"), ("items", .list [.object [("kind", .text "struct"),
    ("name", .text "Pair"), ("fields", .list [.object [("name", .text "left"), ("type", .text "u8")],
      .object [("name", .text "right"),
        ("type", .object [("kind", .text kind), ("inner", .text "Node")])]])]])]

theorem isSane_pairDocument (kind : String) : IsSane (.part .module) (pairDocument kind) := by
  have hword (w : String) : IsSane (.part .type) (.text w) := .bare rfl nofun
  have htype : IsSane (.part .type) (.object [("kind", .text kind), ("inner", .text "Node")]) := by
    refine .object ?_
    change ∀ s ∈ typeSlots (.text kind), _
    unfold typeSlots
    split <;> simp [Value.find?, hword]
  have hleft : IsSane (.part .field) (.object [("name", .text "left"), ("type", .text "u8")]) :=
    .object (by simp [Role.slots, noteSlots, Value.find?, hword])
  have hright : IsSane (.part .field) (.object [("name", .text "right"),
      ("type", .object [("kind", .text kind), ("inner", .text "Node")])]) :=
    .object (by simp [Role.slots, noteSlots, Value.find?, htype])
  have hitem : IsSane (.part .item) (.object [("kind", .text "struct"), ("name", .text "Pair"),
      ("fields", .list [.object [("name", .text "left"), ("type", .text "u8")],
        .object [("name", .text "right"),
          ("type", .object [("kind", .text kind), ("inner", .text "Node")])]])]) :=
    .object (by simp [Role.slots, itemSlots, noteSlots, bodySlots, Value.find?, IsSane.plain,
      IsSane.parts, hleft, hright])
  exact .object (by simp [Role.slots, moduleSlots, Value.find?, IsSane.plain, IsSane.parts, hitem])

theorem moduleOf_of_isSane_pairDocument :
    Conforms (.part .module) (pairDocument "ptr") ∧
      ¬Conforms (.part .module) (pairDocument "box") ∧
      ∃ fault, moduleOf (pairDocument "box") = .error (.document fault) := by
  obtain ⟨hread, -⟩ := moduleOf_of_isSane (isSane_pairDocument "ptr")
  obtain ⟨hunread, hfault⟩ := moduleOf_of_isSane (isSane_pairDocument "box")
  have hbox : ¬Conforms (.part .module) (pairDocument "box") := fun hconforms => by
    obtain ⟨m, hm⟩ := hunread.2 hconforms
    cases hm
  exact ⟨hread.1 ⟨_, rfl⟩, hbox, hfault hbox⟩

end Source

end FfiHeaders
