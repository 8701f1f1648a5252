import SectionedConfig.Proofs.Name
import SectionedConfig.Registry

/-!
# The declarations of a schema

A schema is a list of declarations: of each section that is not left out, and behind it of its
fields that are not left out. Its bindings are collected by checking the declarations one after the
other, so the first one that is bad in itself is reported. If there is none, which is the case if
all names are names and all fields are slots, the bindings are the declared slots in order.
-/

namespace SectionedConfig

variable {Target : Type}

/-! ## Declarations -/

/-- What a schema declares. -/
inductive Declaration (Target : Type) where
  /-- A section, with or without fields. -/
  | opening (sectionName : String)
  /-- A field of a section. -/
  | field (place : Place) (leaf : Leaf Target)

namespace Declaration

/-- The field that is declared, if one is. -/
def field? : Declaration Target → Option (Place × Leaf Target)
  | opening _ => none
  | field place leaf => some (place, leaf)

/-- What is wrong with a declaration in itself. The name of a field is looked at before its type. -/
inductive Fault : Declaration Target → Error → Prop where
  | invalidSection {name reason : String} (hname : NameRefused name reason) :
      Fault (.opening name) (.invalidName name reason)
  | invalidField {place : Place} {leaf : Leaf Target} {reason : String}
      (hkey : NameRefused place.field reason) :
      Fault (.field place leaf) (.invalidName place.field reason)
  | unsupported {place : Place} {typeName : String} (hkey : IsName place.field) :
      Fault (.field place (.unsupported typeName))
        (.unsupportedKind place.sectionName place.field typeName)

end Declaration

/-- The slot of a member, if it is one. -/
def Leaf.slot? : Leaf Target → Option (Slot Target)
  | .slot bound => some bound
  | .unsupported _ => none

/-- The declaration of a field, unless it is left out. -/
def Field.declarations (sectionName : String) (field : Field Target) :
    List (Declaration Target) :=
  if field.ignored then [] else [.field ⟨sectionName, field.key⟩ field.leaf]

/-- The declarations of a section and of its fields, unless it is left out. -/
def Section.declarations (member : Section Target) : List (Declaration Target) :=
  if member.ignored then []
  else .opening member.name :: member.fields.flatMap (Field.declarations member.name)

namespace Schema

/-- All declarations in order. -/
def declarations (schema : Schema Target) : List (Declaration Target) :=
  schema.sections.flatMap Section.declarations

/-- The declared fields in order. -/
def declaredFields (schema : Schema Target) : List (Place × Leaf Target) :=
  schema.declarations.filterMap Declaration.field?

/-- The declared slots in order. -/
def declared (schema : Schema Target) : List (Binding Target) :=
  schema.declaredFields.filterMap fun entry ↦ entry.2.slot?.map fun slot ↦ (entry.1, slot)

/-- The sections that are not left out have names, and so have the fields in them that are not left
out, all of which are slots. -/
def Bindable (schema : Schema Target) : Prop :=
  ∀ member ∈ schema.sections, member.ignored = false → IsName member.name ∧
    ∀ field ∈ member.fields, field.ignored = false →
      IsName field.key ∧ ∃ slot, field.leaf = .slot slot

/-- The other schema declares the same sections, and the same fields in them, in another order or in
other groups. -/
structure Rearranges (other schema : Schema Target) : Prop where
  opening_mem_iff : ∀ name,
    .opening name ∈ other.declarations ↔ .opening name ∈ schema.declarations
  fields_perm : other.declaredFields.Perm schema.declaredFields

end Schema

/-! ## Going through declarations -/

variable {schema other : Schema Target} {error : Error}

namespace Declaration

variable {declaration : Declaration Target}

/-- What a declaration binds, once it has been checked in itself. -/
def binding : Declaration Target → Except Error (Option (Binding Target))
  | opening sectionName => (checkName sectionName).map fun _ ↦ none
  | field place leaf => Field.binding place.sectionName ⟨place.field, leaf, false⟩

/-- What declarations bind, one after the other. -/
def bindingsOf (declarations : List (Declaration Target)) : Except Error (List (Binding Target)) :=
  (declarations.mapM binding).map fun bound ↦ bound.filterMap id

theorem binding_eq_error_iff : declaration.binding = .error error ↔ declaration.Fault error := by
  cases declaration with
  | opening sectionName =>
    rw [binding, map_eq_error_iff, checkName_eq_error_iff]
    constructor
    · rintro ⟨reason, hrefused, rfl⟩
      exact .invalidSection hrefused
    · rintro ⟨hrefused⟩
      exact ⟨_, hrefused, rfl⟩
  | field place leaf =>
    refine bind_eq_error_iff.trans ⟨?_, fun h ↦ ?_⟩
    · rintro (h | ⟨_, hkey, h⟩)
      · obtain ⟨reason, hrefused, rfl⟩ := checkName_eq_error_iff.mp h
        exact .invalidField hrefused
      · cases leaf with
        | slot slot => cases h
        | unsupported typeName =>
          cases h
          exact .unsupported (checkName_eq_ok_iff.mp hkey)
    · cases h with
      | invalidField hrefused => exact .inl (checkName_eq_error_iff.mpr ⟨_, hrefused, rfl⟩)
      | unsupported hkey => exact .inr ⟨(), checkName_eq_ok_iff.mpr hkey, rfl⟩

theorem eq_of_binding_eq_ok {bound : Option (Binding Target)}
    (h : declaration.binding = .ok bound) :
    bound = declaration.field?.bind fun entry ↦ entry.2.slot?.map fun slot ↦ (entry.1, slot) := by
  cases declaration with
  | opening sectionName =>
    obtain ⟨_, _, rfl⟩ := map_eq_ok_iff.mp h
    rfl
  | field place leaf =>
    obtain ⟨_, _, h⟩ := bind_eq_ok_iff.mp h
    cases leaf with
    | slot slot => exact (Except.ok.inj h).symm
    | unsupported typeName => cases h

theorem bindingsOf_cons (declaration : Declaration Target) (rest : List (Declaration Target)) :
    bindingsOf (declaration :: rest) =
      declaration.binding.bind fun bound ↦
        (bindingsOf rest).map fun later ↦ bound.toList ++ later := by
  unfold bindingsOf
  rw [List.mapM_cons]
  cases declaration.binding with
  | error => rfl
  | ok bound =>
    cases rest.mapM binding with
    | error => rfl
    | ok later => cases bound <;> rfl

theorem bindingsOf_append (first second : List (Declaration Target)) :
    bindingsOf (first ++ second) =
      (bindingsOf first).bind fun bound ↦ (bindingsOf second).map fun later ↦ bound ++ later := by
  unfold bindingsOf
  rw [List.mapM_append]
  cases first.mapM binding with
  | error => rfl
  | ok bound =>
    cases second.mapM binding with
    | error => rfl
    | ok later => exact congrArg Except.ok List.filterMap_append

end Declaration

open Declaration

theorem Field.bindingsOf_declarations (sectionName : String) (field : Field Target) :
    bindingsOf (field.declarations sectionName) =
      (field.binding sectionName).map Option.toList := by
  obtain ⟨key, leaf, ignored⟩ := field
  cases ignored with
  | true => rfl
  | false =>
    change bindingsOf [.field ⟨sectionName, key⟩ leaf] = _
    rw [bindingsOf_cons, Declaration.binding]
    cases (Field.mk key leaf false).binding sectionName with
    | error => rfl
    | ok bound => exact congrArg Except.ok (List.append_nil _)

theorem Section.bindings_eq (member : Section Target) :
    member.bindings = bindingsOf member.declarations := by
  -- A field that is left out binds nothing, so it may as well not be declared.
  have hfields (fields : List (Field Target)) :
      ((fields.mapM (Field.binding member.name)).map fun bound ↦ bound.filterMap id) =
        bindingsOf (fields.flatMap (Field.declarations member.name)) := by
    induction fields with
    | nil => rfl
    | cons field rest ih =>
      rw [List.flatMap_cons, bindingsOf_append, Field.bindingsOf_declarations, ← ih,
        List.mapM_cons]
      cases field.binding member.name with
      | error => rfl
      | ok bound =>
        cases rest.mapM (Field.binding member.name) with
        | error => rfl
        | ok later => cases bound <;> rfl
  obtain ⟨name, fields, ignored⟩ := member
  cases ignored with
  | true => rfl
  | false =>
    change ((checkName name).bind fun _ ↦ _) =
      bindingsOf (.opening name :: fields.flatMap (Field.declarations name))
    rw [bindingsOf_cons, ← hfields, Declaration.binding]
    cases checkName name with
    | error => rfl
    | ok =>
      cases fields.mapM (Field.binding name) with
      | error => rfl
      | ok bound => rfl

theorem Schema.bindings_eq (schema : Schema Target) :
    schema.bindings = bindingsOf schema.declarations := by
  unfold Schema.bindings Schema.declarations
  induction schema.sections with
  | nil => rfl
  | cons member rest ih =>
    rw [List.flatMap_cons, bindingsOf_append, ← ih, ← Section.bindings_eq, List.mapM_cons]
    cases member.bindings with
    | error => rfl
    | ok bound =>
      cases rest.mapM Section.bindings with
      | error => rfl
      | ok later => rfl

/-! ## Bindable schemas -/

theorem Field.mem_declarations_iff {field : Field Target} {sectionName : String}
    {declaration : Declaration Target} :
    declaration ∈ field.declarations sectionName ↔
      field.ignored = false ∧ declaration = .field ⟨sectionName, field.key⟩ field.leaf := by
  unfold Field.declarations
  cases field.ignored <;> simp

theorem Section.mem_declarations_iff {member : Section Target}
    {declaration : Declaration Target} :
    declaration ∈ member.declarations ↔ member.ignored = false ∧
      (declaration = .opening member.name ∨ ∃ field ∈ member.fields, field.ignored = false ∧
        declaration = .field ⟨member.name, field.key⟩ field.leaf) := by
  unfold Section.declarations
  cases member.ignored <;> simp [Field.mem_declarations_iff]

namespace Schema

theorem mem_declarations_iff {declaration : Declaration Target} :
    declaration ∈ schema.declarations ↔ ∃ member ∈ schema.sections, member.ignored = false ∧
      (declaration = .opening member.name ∨ ∃ field ∈ member.fields, field.ignored = false ∧
        declaration = .field ⟨member.name, field.key⟩ field.leaf) := by
  simp only [declarations, List.mem_flatMap, Section.mem_declarations_iff]

theorem mem_declaredFields_iff {entry : Place × Leaf Target} :
    entry ∈ schema.declaredFields ↔ .field entry.1 entry.2 ∈ schema.declarations := by
  rw [declaredFields, List.mem_filterMap]
  constructor
  · rintro ⟨declaration, hdeclaration, hfield⟩
    cases declaration with
    | opening name => cases hfield
    | field place leaf =>
      obtain rfl := Option.some.inj hfield
      exact hdeclaration
  · exact fun h ↦ ⟨_, h, rfl⟩

theorem mem_declared_iff {place : Place} {slot : Slot Target} :
    (place, slot) ∈ schema.declared ↔ .field place (.slot slot) ∈ schema.declarations := by
  rw [declared, List.mem_filterMap]
  constructor
  · rintro ⟨⟨other, leaf⟩, hentry, hslot⟩
    obtain ⟨bound, hbound, hpair⟩ := Option.map_eq_some_iff.mp hslot
    obtain ⟨rfl, rfl⟩ := Prod.mk.inj hpair
    cases leaf with
    | slot slot =>
      obtain rfl := Option.some.inj hbound
      exact mem_declaredFields_iff.mp hentry
    | unsupported typeName => cases hbound
  · exact fun h ↦ ⟨(place, .slot slot), mem_declaredFields_iff.mpr h, rfl⟩

/-- What is asked of sections and fields can be asked of declarations. -/
theorem bindable_iff : schema.Bindable ↔
    (∀ name, .opening name ∈ schema.declarations → IsName name) ∧
      ∀ entry ∈ schema.declaredFields, IsName entry.1.field ∧ ∃ slot, entry.2 = .slot slot := by
  simp only [mem_declaredFields_iff, mem_declarations_iff]
  constructor
  · intro h
    constructor
    · rintro name ⟨member, hmember, hignored, hname | ⟨_, _, _, hname⟩⟩
      · cases hname
        exact (h member hmember hignored).1
      · cases hname
    · rintro ⟨place, leaf⟩ ⟨member, hmember, hignored, hfield | ⟨field, hfield, hkept, heq⟩⟩
      · cases hfield
      · cases heq
        exact (h member hmember hignored).2 field hfield hkept
  · rintro ⟨hnames, hfields⟩ member hmember hignored
    refine ⟨hnames _ ⟨member, hmember, hignored, .inl rfl⟩, fun field hfield hkept ↦ ?_⟩
    exact hfields (⟨member.name, field.key⟩, field.leaf)
      ⟨member, hmember, hignored, .inr ⟨field, hfield, hkept, rfl⟩⟩

/-- In a bindable schema nothing is wrong with any declaration in itself. -/
theorem bindable_iff_forall_not_fault : schema.Bindable ↔
    ∀ declaration ∈ schema.declarations, ∀ error, ¬ declaration.Fault error := by
  rw [bindable_iff]
  constructor
  · rintro ⟨hnames, hfields⟩ declaration hdeclaration error hfault
    cases hfault with
    | invalidSection hname =>
      exact isName_iff_forall_not_refused.mp (hnames _ hdeclaration) _ hname
    | invalidField hkey =>
      have hfield := (hfields (_, _) (mem_declaredFields_iff.mpr hdeclaration)).1
      exact isName_iff_forall_not_refused.mp hfield _ hkey
    | unsupported hkey =>
      obtain ⟨slot, hslot⟩ := (hfields (_, _) (mem_declaredFields_iff.mpr hdeclaration)).2
      cases hslot
  · intro h
    refine ⟨fun name hmem ↦ isName_iff_forall_not_refused.mpr fun reason hrefused ↦
      h _ hmem _ (.invalidSection hrefused), ?_⟩
    rintro ⟨place, leaf⟩ hentry
    have hmem := mem_declaredFields_iff.mp hentry
    have hkey : IsName place.field := isName_iff_forall_not_refused.mpr fun reason hrefused ↦
      h _ hmem _ (.invalidField hrefused)
    cases leaf with
    | slot slot => exact ⟨hkey, slot, rfl⟩
    | unsupported typeName => exact absurd (.unsupported hkey) (h _ hmem _)

theorem bindings_eq_error_iff :
    schema.bindings = .error error ↔
      ∃ before declaration after, schema.declarations = before ++ declaration :: after ∧
        (∀ earlier ∈ before, ∀ other, ¬ earlier.Fault other) ∧ declaration.Fault error := by
  rw [bindings_eq, bindingsOf, map_eq_error_iff, mapM_eq_error_iff]
  simp only [exists_eq_ok_iff, ne_eq, binding_eq_error_iff]

theorem exists_bindings_iff : (∃ bindings, schema.bindings = .ok bindings) ↔ schema.Bindable := by
  rw [bindable_iff_forall_not_fault, bindings_eq]
  constructor
  · rintro ⟨bindings, h⟩ declaration hdeclaration error hfault
    obtain ⟨results, hresults, _⟩ := map_eq_ok_iff.mp h
    obtain ⟨bound, _, hbound⟩ := exists_mem_of_mapM hresults hdeclaration
    rw [binding_eq_error_iff.mpr hfault] at hbound
    cases hbound
  · intro h
    obtain ⟨results, hresults⟩ := exists_mapM_eq_ok fun declaration hdeclaration ↦
      exists_eq_ok_iff.mpr fun error herror ↦
        h declaration hdeclaration error (binding_eq_error_iff.mp herror)
    exact ⟨_, map_eq_ok_iff.mpr ⟨results, hresults, rfl⟩⟩

theorem eq_declared_of_bindings {bindings : List (Binding Target)}
    (h : schema.bindings = .ok bindings) : bindings = schema.declared := by
  rw [bindings_eq] at h
  obtain ⟨results, hresults, rfl⟩ := map_eq_ok_iff.mp h
  obtain ⟨_, rfl⟩ := eq_map_of_mapM_eq_ok
    (fun declaration bound hbound ↦ ⟨trivial, eq_of_binding_eq_ok hbound⟩) hresults
  rw [declared, declaredFields, List.filterMap_filterMap, List.filterMap_map]
  rfl

/-! ## Rearranged schemas -/

theorem Rearranges.bindable (h : other.Rearranges schema) (hschema : schema.Bindable) :
    other.Bindable := by
  rw [bindable_iff] at hschema ⊢
  exact ⟨fun name hname ↦ hschema.1 name ((h.opening_mem_iff name).mp hname),
    fun entry hentry ↦ hschema.2 entry (h.fields_perm.mem_iff.mp hentry)⟩

theorem Rearranges.declared_perm (h : other.Rearranges schema) :
    other.declared.Perm schema.declared :=
  h.fields_perm.filterMap _

end Schema

end SectionedConfig
