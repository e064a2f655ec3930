import Mathlib.Tactic.SplitIfs
import SignalFxTracing.Lib.ListUpdate
import SignalFxTracing.Metadata.WrapperCoherence

/-!
# Wrappers with one cache key

The metadata of a module as tables of rows behaves as documented. In it the
calls for two wrappers that share a key, but are not the same, find what was
made for the first where they ask for the second.
-/

namespace SignalFxTracing.Metadata

open Clr Lib

/-- A metadata table: a token has 24 bits for the number of a row. -/
structure Table (Row : Type) where
  rows : List Row
  small : rows.length ≤ 0xFFFFFF

namespace Table

variable {Row : Type}

def empty : Table Row := ⟨[], Nat.zero_le _⟩

/-- The token of the row at that position in the table of a kind. -/
def tokenAt (kind : MdToken) (i : Nat) : MdToken := kind + 1 + UInt32.ofNat i

def row (kind : MdToken) (table : Table Row) (token : MdToken) : Option Row :=
  table.rows[(token - (kind + 1)).toNat]?

def add (kind : MdToken) (table : Table Row) (row : Row) : (HResult × MdToken) × Table Row :=
  if h : table.rows.length < 0xFFFFFF then
    ((HResult.S_OK, tokenAt kind table.rows.length),
      ⟨table.rows ++ [row], by rw [List.length_append]; exact h⟩)
  else ((HResult.E_FAIL, kind), table)

def find [DecidableEq Row] (kind : MdToken) (table : Table Row) (row : Row) :
    HResult × MdToken :=
  match table.rows.findIdx? (· = row) with
  | some i => (HResult.S_OK, tokenAt kind i)
  | none => (HResult.recordNotFound, kind)

theorem row_tokenAt (kind : MdToken) (table : Table Row) {i : Nat} (hi : i < 2 ^ 32) :
    table.row kind (tokenAt kind i) = table.rows[i]? := by
  have hback : tokenAt kind i - (kind + 1) = UInt32.ofNat i := by
    rw [tokenAt, UInt32.add_comm, UInt32.add_sub_cancel]
  rw [row, hback, UInt32.toNat_ofNat_of_lt' hi]

theorem row_add (kind : MdToken) (table : Table Row) (row : Row)
    (hok : ¬HResult.failed (table.add kind row).1.1) :
    (table.add kind row).2.row kind (table.add kind row).1.2 = some row := by
  rw [add] at hok ⊢
  split
  next h =>
    rw [row_tokenAt _ _ (by omega)]
    simp
  next h =>
    rw [dif_neg h] at hok
    exact absurd (by decide : HResult.failed HResult.E_FAIL) hok

theorem row_add_of_some {kind : MdToken} {table : Table Row} {row : Row} {t : MdToken} {x : Row}
    (h : table.row kind t = some x) : (table.add kind row).2.row kind t = some x := by
  rw [add]
  split
  · obtain ⟨hlt, hx⟩ := List.getElem?_eq_some_iff.mp h
    rw [Table.row, List.getElem?_append_left hlt]
    exact h
  · exact h

theorem row_of_row_add {kind : MdToken} {table : Table Row} {row : Row} {t : MdToken} {x : Row}
    (h : (table.add kind row).2.row kind t = some x) : table.row kind t = some x ∨ x = row := by
  rw [add] at h
  split at h
  · rcases ListUpdate.getElem?_concat_eq_some.mp h with hold | ⟨-, rfl⟩
    · exact Or.inl hold
    · exact Or.inr rfl
  · exact Or.inl h

theorem row_find [DecidableEq Row] (kind : MdToken) (table : Table Row) (row : Row)
    (hok : ¬HResult.failed (table.find kind row).1) :
    table.row kind (table.find kind row).2 = some row := by
  rw [find] at hok ⊢
  split at hok
  next i hi =>
    obtain ⟨hlt, hrow, -⟩ := List.findIdx?_eq_some_iff_getElem.mp hi
    have hsmall := table.small
    rw [row_tokenAt _ _ (by omega), List.getElem?_eq_getElem hlt, of_decide_eq_true hrow]
  next => exact absurd (by decide : HResult.failed HResult.recordNotFound) hok

theorem find_fst {Row : Type} [DecidableEq Row] {kind : MdToken} {table : Table Row} {row : Row} :
    (table.find kind row).1 = HResult.S_OK ∨ (table.find kind row).1 = HResult.recordNotFound := by
  rw [find]
  split
  · exact Or.inl rfl
  · exact Or.inr rfl

end Table

/-- The metadata of a module as tables. -/
structure Tables where
  assembly : AssemblyIdentity
  assemblies : Table AssemblyIdentity
  types : Table (MdToken × Text)
  members : Table (MdToken × Text × Signature)

namespace Tables

/-- The only row of the module table. -/
def moduleToken : MdToken := 1

def scope (m : Tables) (token : MdToken) : Option AssemblyIdentity :=
  if token = moduleToken then some m.assembly else m.assemblies.row mdAssemblyRefNil token

/-- The interfaces of a module that are implemented over its tables. -/
def interfaces (platform : Platform) : MetadataInterfaces Tables where
  platform := platform
  moduleInfoIsValid m := (true, m)
  getModuleFromScope m := ((HResult.S_OK, moduleToken), m)
  defineAssemblyRef a m :=
    let added := m.assemblies.add mdAssemblyRefNil a
    (added.1.1, { m with assemblies := added.2 })
  enumAssemblyRefs m :=
    ((List.range m.assemblies.rows.length).map (Table.tokenAt mdAssemblyRefNil), m)
  referencedAssemblyName t m := ((m.scope t).elim [] AssemblyIdentity.name, m)
  findTypeRef scope name m := (m.types.find mdTypeRefNil (scope, name), m)
  defineTypeRefByName scope name m :=
    let added := m.types.add mdTypeRefNil (scope, name)
    (added.1, { m with types := added.2 })
  findMemberRef parent name signature m :=
    (m.members.find mdMemberRefNil (parent, name, signature), m)
  defineMemberRef parent name signature m :=
    let added := m.members.add mdMemberRefNil (parent, name, signature)
    (added.1, { m with members := added.2 })

def tables : MetadataTables Tables where
  assembly := assembly
  scope := scope
  typeRef m := m.types.row mdTypeRefNil
  memberRef m := m.members.row mdMemberRefNil

variable (platform : Platform)

@[simp] theorem interfaces_platform : (interfaces platform).platform = platform := rfl

theorem tokenAt_ne_moduleToken {i : Nat} (hi : i < 0xFFFFFF) :
    Table.tokenAt mdAssemblyRefNil i ≠ moduleToken := by
  intro h
  have hbase : (mdAssemblyRefNil + 1).toNat = 0x23000001 := rfl
  have hone : moduleToken.toNat = 1 := rfl
  have hnat := congrArg UInt32.toNat h
  rw [Table.tokenAt, UInt32.toNat_add, UInt32.toNat_ofNat', hbase, hone] at hnat
  omega

theorem grows_assemblies (m : Tables) (a : AssemblyIdentity) :
    tables.Grows {a} m ((interfaces platform).defineAssemblyRef a m).2 where
  assembly := rfl
  scope t x hx := by
    change m.scope t = some x at hx
    change Tables.scope _ t = some x
    rw [scope] at hx ⊢
    split_ifs at hx ⊢
    · exact hx
    · exact Table.row_add_of_some hx
  typeRef _ _ := id
  memberRef _ _ := id
  added t x hx := by
    change Tables.scope _ t = some x at hx
    change m.scope t = some x ∨ _
    rw [scope] at hx ⊢
    split_ifs at hx ⊢
    · exact Or.inl hx
    · exact Table.row_of_row_add hx

theorem interfaces_documented : (interfaces platform).Documented tables where
  moduleInfoIsValid m := .refl _ m
  getModuleFromScope m := .refl _ m
  moduleToken m _ := rfl
  defineAssemblyRef a m := grows_assemblies platform m a
  enumAssemblyRefs m := .refl _ m
  enumerated m t ht := by
    obtain ⟨i, hi, rfl⟩ := List.mem_map.mp ht
    have hlt := List.mem_range.mp hi
    have hsmall := m.assemblies.small
    refine ⟨m.assemblies.rows[i], ?_⟩
    change m.scope _ = _
    rw [scope, if_neg (tokenAt_ne_moduleToken (by omega)), Table.row_tokenAt _ _ (by omega),
      List.getElem?_eq_getElem hlt]
  referencedAssemblyName t m := .refl _ m
  name t m a ha _ := by
    change (m.scope t).elim [] _ = _
    change m.scope t = some a at ha
    rw [ha, Option.elim_some]
  findTypeRef scope name :=
    ⟨fun m => .refl _ m, fun m hok => m.types.row_find mdTypeRefNil _ hok⟩
  defineTypeRefByName scope name :=
    ⟨fun _ => ⟨rfl, fun _ _ => id, fun _ _ => Table.row_add_of_some, fun _ _ => id,
      fun _ _ => Or.inl⟩, fun m hok => m.types.row_add mdTypeRefNil _ hok⟩
  findMemberRef parent name signature :=
    ⟨fun m => .refl _ m, fun m hok => m.members.row_find mdMemberRefNil _ hok⟩
  defineMemberRef parent name signature :=
    ⟨fun _ => ⟨rfl, fun _ _ => id, fun _ _ => id, fun _ _ => Table.row_add_of_some,
      fun _ _ => Or.inl⟩, fun m hok => m.members.row_add mdMemberRefNil _ hok⟩

/-- A module without references, in an assembly. -/
def soleModule (a : AssemblyIdentity) : Tables := ⟨a, .empty, .empty, .empty⟩

def typeToken : MdToken := Table.tokenAt mdTypeRefNil 0
def memberToken : MdToken := Table.tokenAt mdMemberRefNil 0

/-- The tables after the assembly of a wrapper was emitted. -/
def withAssembly (r : MethodReference) : Tables :=
  { soleModule r.assembly.identity with
    assemblies := (Table.empty.add mdAssemblyRefNil r.assembly.identity).2 }

/-- The tables after the type of a wrapper was defined. -/
def withType (r : MethodReference) : Tables :=
  { withAssembly r with types := (Table.empty.add mdTypeRefNil (moduleToken, r.typeName)).2 }

/-- The tables after a wrapper was defined. -/
def withMember (r : MethodReference) : Tables :=
  { withType r with
    members := (Table.empty.add mdMemberRefNil (typeToken, r.methodName, r.methodSignature)).2 }

/-- The module as it is stored first. -/
def newMetadata (r : MethodReference) : ModuleMetadata :=
  .new r.assembly.name 0 (Vector.replicate 16 0) []

/-- The session after the first call for a wrapper of the module's own assembly. -/
def afterFirst (r : MethodReference) : Session Tables where
  metadata := ((newMetadata r).setWrapperParentTypeRef (r.getTypeCacheKey platform)
    typeToken).setWrapperMemberRef (r.getMethodCacheKey platform) memberToken
  runtime := withMember r
  recorded := []

theorem getWrapperMethodRef_first (r : MethodReference) :
    getWrapperMethodRef (interfaces platform) r
      ⟨newMetadata r, soleModule r.assembly.identity, []⟩ =
      (some memberToken, afterFirst platform r) := by
  have hresolved : resolveWrapperTypeRef (interfaces platform) moduleToken r.assembly.name r
      (withAssembly r) = ((HResult.S_OK, typeToken), withType r) := if_pos rfl
  have hparent := findWrapperTypeRef_of_resolved
    (s := ⟨newMetadata r, withAssembly r, []⟩) rfl hresolved HResult.not_failed_S_OK
  have hmember :
      findOrDefine
        ((interfaces platform).findMemberRef typeToken r.methodName r.methodSignature)
        ((interfaces platform).defineMemberRef typeToken r.methodName r.methodSignature)
        (withType r) = ((HResult.S_OK, memberToken), withMember r) := rfl
  have hstored := storeWrapperMethodRef_of_resolved rfl hparent HResult.not_failed_S_OK hmember
    HResult.not_failed_S_OK
  exact getWrapperMethodRef_of_stored rfl rfl rfl HResult.not_failed_S_OK hstored
    HResult.not_failed_S_OK (KeyedCache.store_self ..)

theorem typeOf_withMember (r : MethodReference) :
    tables.typeOf (withMember r) typeToken = some r.parent := rfl

theorem memberOf_withMember (r : MethodReference) :
    tables.memberOf (withMember r) memberToken = some r.member := by
  have hrow : tables.memberRef (withMember r) memberToken =
      some (typeToken, r.methodName, r.methodSignature) := rfl
  simp [MetadataTables.memberOf, hrow, typeOf_withMember, MethodReference.member]

theorem perform_first (replacement : MethodReplacement) :
    Session.perform (interfaces platform)
        (wrapperSession (interfaces platform) (newMetadata replacement.wrapperMethod)
          (soleModule replacement.wrapperMethod.assembly.identity)).initial
        (.getWrapperMethodRef replacement) =
      afterFirst platform replacement.wrapperMethod :=
  congrArg Prod.snd (getWrapperMethodRef_first platform replacement.wrapperMethod)

/-- A later call for a wrapper with the type key of the first. -/
theorem getWrapperMethodRef_second {a b : MethodReference}
    (htype : b.getTypeCacheKey platform = a.getTypeCacheKey platform)
    (hmethod : b.getMethodCacheKey platform ≠ a.getMethodCacheKey platform) :
    ∃ token,
      (getWrapperMethodRef (interfaces platform) b (afterFirst platform a)).1 = some token ∧
      tables.memberOf
          (getWrapperMethodRef (interfaces platform) b (afterFirst platform a)).2.runtime token =
        some (a.parent, b.methodName, b.methodSignature) := by
  have hdoc := interfaces_documented platform
  let s : Session Tables :=
    { afterFirst platform a with
      runtime := emitAssemblyRef (interfaces platform) b.assembly (withMember a) }
  have hmiss : s.metadata.tryGetWrapperMemberRef
      (b.getMethodCacheKey (interfaces platform).platform) = none :=
    KeyedCache.store_of_ne _ _ hmethod
  have hparent : findWrapperTypeRef (interfaces platform) moduleToken b s =
      ((HResult.S_OK, typeToken), s) := by
    have hcached :
        s.metadata.tryGetWrapperParentTypeRef (b.getTypeCacheKey platform) = some typeToken := by
      rw [htype]
      exact KeyedCache.store_self ..
    simp [findWrapperTypeRef, hcached]
  have hrow := (hdoc.findMemberRef typeToken b.methodName b.methodSignature).findOrDefine
    (hdoc.defineMemberRef typeToken b.methodName b.methodSignature)
  have hdefined : ∃ token m,
      findOrDefine
        ((interfaces platform).findMemberRef typeToken b.methodName b.methodSignature)
        ((interfaces platform).defineMemberRef typeToken b.methodName b.methodSignature)
        s.runtime = ((HResult.S_OK, token), m) := by
    rw [findOrDefine]
    split
    next => exact ⟨_, _, rfl⟩
    next hfound => exact ⟨_, _, Prod.ext (Prod.ext (Table.find_fst.resolve_right hfound) rfl) rfl⟩
  obtain ⟨token, m, hdefined⟩ := hdefined
  have hstored := storeWrapperMethodRef_of_resolved (s := s) (t := s) hmiss hparent
    HResult.not_failed_S_OK hdefined HResult.not_failed_S_OK
  have hgot := getWrapperMethodRef_of_stored (s := afterFirst platform a) hmiss rfl rfl
    HResult.not_failed_S_OK hstored HResult.not_failed_S_OK (KeyedCache.store_self ..)
  refine ⟨token, congrArg Prod.fst hgot, ?_⟩
  have hmember := hrow.row s.runtime
  have hgrows := hrow.grows s.runtime
  rw [hdefined] at hmember hgrows
  have hlater := hgrows.typeOf ((grows_assemblies platform _ _).typeOf (typeOf_withMember a))
  rw [hgot]
  simp [MetadataTables.memberOf, hmember HResult.not_failed_S_OK, hlater]

/-- The calls that a collision needs are made in a module without references. -/
theorem knowsNoOther_soleModule {wrapperMethods : Set MethodReference}
    (hnames : NamesAssemblies wrapperMethods) {a : MethodReference} (ha : a ∈ wrapperMethods) :
    KnowsNoOther wrapperMethods tables (soleModule a.assembly.identity) where
  assembly r hr hname := (hnames a ha).2 r hr hname
  scope t x hx r hr hname := by
    change Tables.scope _ t = some x at hx
    rw [scope] at hx
    split_ifs at hx
    · obtain rfl : a.assembly.identity = x := Option.some.inj hx
      exact (hnames a ha).2 r hr hname
    · cases hx

end Tables

section Keys

variable {platform : Platform} {replacements : List MethodReplacement}

/-- Every run of calls for the replacements is coherent, in every module that knows no other
assembly by the name of a wrapper's assembly. -/
def CoherentRuns (platform : Platform) (replacements : List MethodReplacement) : Prop :=
  ∀ (M : Type) (api : MetadataInterfaces M) (tables : MetadataTables M),
    api.platform = platform → api.Documented tables →
    ∀ m, KnowsNoOther (wrappers replacements) tables m →
      ∀ appDomainId moduleVersionId integrations,
      ∀ calls : List Call, (∀ call ∈ calls, call.replacement ∈ replacements) →
        let session := wrapperSession api
          (.new (tables.assembly m).name appDomainId moduleVersionId integrations) m
        session.EveryStep session.initial calls (Coherent api tables replacements)

/-- After the first call, a wrapper with the same method key finds the member of the other. -/
theorem member_eq_of_coherentRuns (hnames : NamesAssemblies (wrappers replacements))
    (h : CoherentRuns platform replacements) {a b : MethodReplacement} (ha : a ∈ replacements)
    (hb : b ∈ replacements)
    (hkey : a.wrapperMethod.getMethodCacheKey platform =
      b.wrapperMethod.getMethodCacheKey platform) :
    a.wrapperMethod.member = b.wrapperMethod.member := by
  have hm := Tables.knowsNoOther_soleModule hnames ⟨a, ha, rfl⟩
  have hcoherent := h Tables (Tables.interfaces platform) Tables.tables rfl
    (Tables.interfaces_documented platform) _ hm 0 (Vector.replicate 16 0) []
    [.getWrapperMethodRef a] (by simpa [Call.replacement] using ha) [] _ [] _ _ rfl rfl
    (congrArg some (Tables.perform_first platform a))
  have hfound := hcoherent.found b hb Tables.memberToken (by
    rw [Tables.interfaces_platform, ← hkey]
    exact KeyedCache.store_self ..)
  exact Option.some.inj ((Tables.memberOf_withMember a.wrapperMethod).symm.trans hfound)

/-- The second call for a wrapper with the same type key is given a member of the other's type. -/
theorem parent_eq_of_coherentRuns (hnames : NamesAssemblies (wrappers replacements))
    (h : CoherentRuns platform replacements) {a b : MethodReplacement} (ha : a ∈ replacements)
    (hb : b ∈ replacements)
    (hkey : a.wrapperMethod.getTypeCacheKey platform =
      b.wrapperMethod.getTypeCacheKey platform) :
    a.wrapperMethod.parent = b.wrapperMethod.parent := by
  by_cases hmethod : b.wrapperMethod.getMethodCacheKey platform =
      a.wrapperMethod.getMethodCacheKey platform
  · exact congrArg Prod.fst (member_eq_of_coherentRuns hnames h ha hb hmethod.symm)
  · obtain ⟨token, hreturned, hmember⟩ :=
      Tables.getWrapperMethodRef_second platform hkey.symm hmethod
    have hm := Tables.knowsNoOther_soleModule hnames ⟨a, ha, rfl⟩
    have hcoherent := h Tables (Tables.interfaces platform) Tables.tables rfl
      (Tables.interfaces_documented platform) _ hm 0 (Vector.replicate 16 0) []
      [.getWrapperMethodRef a, .getWrapperMethodRef b] (by simp [Call.replacement, ha, hb])
      [.getWrapperMethodRef a] _ [] _ _ rfl (congrArg some (Tables.perform_first platform a)) rfl
    have hown := hcoherent.returned b token rfl hreturned
    exact congrArg Prod.fst (Option.some.inj (hmember.symm.trans hown))

/-- The caches of every module are coherent through any calls for the replacements exactly when
the keys tell their wrappers apart. -/
theorem wrapperRefs_coherent_iff (platform : Platform) (replacements : List MethodReplacement)
    (hnames : NamesAssemblies (wrappers replacements)) :
    CoherentRuns platform replacements ↔ KeysTellApart (wrappers replacements) platform := by
  constructor
  · intro h
    refine ⟨?_, ?_⟩
    · rintro _ ⟨a, ha, rfl⟩ _ ⟨b, hb, rfl⟩ hkey
      exact parent_eq_of_coherentRuns hnames h ha hb hkey
    · rintro _ ⟨a, ha, rfl⟩ _ ⟨b, hb, rfl⟩ hkey
      exact member_eq_of_coherentRuns hnames h ha hb hkey
  · rintro hkeys M api tables rfl hdoc m hm _ _ _ calls hcalls
    exact coherent_of_keys hdoc hnames hkeys hm hcalls

/-- Wrappers of one assembly, as those of the tracer are. -/
theorem namesAssemblies_of_same (assembly : AssemblyReference) (hname : assembly.name ≠ [])
    (h : ∀ replacement ∈ replacements, replacement.wrapperMethod.assembly = assembly) :
    NamesAssemblies (wrappers replacements) := by
  rintro _ ⟨a, ha, rfl⟩
  rw [h a ha]
  refine ⟨hname, ?_⟩
  rintro _ ⟨b, hb, rfl⟩ -
  rw [h b hb]

end Keys

section Overloads

/-- The wrapper of `ExecuteReader` with a signature. -/
def executeReader (signature : Signature) : MethodReplacement where
  callerMethod := { assembly := { name := [] }, typeName := [], methodName := [] }
  targetMethod :=
    { assembly := { name := text "System.Data" }
      typeName := text "System.Data.IDbCommand"
      methodName := text "ExecuteReader" }
  wrapperMethod :=
    { assembly := { name := text "SignalFx.Tracing.ClrProfiler.Managed" }
      typeName := text "SignalFx.Tracing.ClrProfiler.Integrations.AdoNet.IDbCommandIntegration"
      methodName := text "ExecuteReader"
      methodSignature := signature }

/-- The wrappers of two overloads: the second takes one more argument. -/
def overloads : List MethodReplacement :=
  [[0x00, 0x04, 0x1C, 0x1C, 0x08, 0x08, 0x0A],
    [0x00, 0x05, 0x1C, 0x1C, 0x08, 0x08, 0x08, 0x0A]].map executeReader

theorem namesAssemblies_executeReader (signatures : List Signature) :
    NamesAssemblies (wrappers (signatures.map executeReader)) := by
  apply namesAssemblies_of_same (executeReader []).wrapperMethod.assembly (by decide)
  intro replacement hreplacement
  obtain ⟨signature, -, rfl⟩ := List.mem_map.mp hreplacement
  rfl

theorem wrapperRefs_coherent_single :
    CoherentRuns .other [executeReader [0x00, 0x04, 0x1C, 0x1C, 0x08, 0x08, 0x0A]] := by
  have hnames := namesAssemblies_executeReader [[0x00, 0x04, 0x1C, 0x1C, 0x08, 0x08, 0x0A]]
  refine (wrapperRefs_coherent_iff .other _ hnames).mpr ⟨?_, ?_⟩
  all_goals
    rintro _ ⟨a, ha, rfl⟩ _ ⟨b, hb, rfl⟩ -
    obtain rfl := List.mem_singleton.mp ha
    obtain rfl := List.mem_singleton.mp hb
    rfl

/-- The reference that is made for one overload is found for the other. -/
theorem wrapperRefs_not_coherent : ¬CoherentRuns .windows overloads := by
  intro h
  have hnames : NamesAssemblies (wrappers overloads) := namesAssemblies_executeReader _
  have hmember := member_eq_of_coherentRuns hnames h (a := overloads[0]) (b := overloads[1])
    (List.getElem_mem _) (List.getElem_mem _) rfl
  have hsignature := congrArg (fun member => member.2.2.length) hmember
  exact absurd hsignature (by decide)

end Overloads

end SignalFxTracing.Metadata
