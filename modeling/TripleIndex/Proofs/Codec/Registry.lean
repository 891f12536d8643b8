/-
  Codecs with resolvers of any kind added to the standard ones. Adding a resolver takes out those of
  its datatype, so of each datatype the last one added is left (`ofDatatype_foldl_replace`). No data
  holds a byte as low as the delimiter in front of the marker, so data and marker can be told apart
  from the front as well as from the end, whatever the resolvers write (`eq_of_isPrefix`).

  * `ofDatatype_replace`: what one more resolver changes.
  * `extended_resolverOf_iff`: the resolver of a value is the last one added for its datatype.
  * `decodeObject_eq_map`: an object is read by the resolver that wrote it, from the same bytes.
  * `extended_dispatch`: all of it, for every codec that is built.
-/
import Mathlib
import TripleIndex.Proofs.Codec
import TripleIndex.Resolver.Styled

namespace TripleIndex

/-- The value of the same datatype with another text. -/
def Value.withData (text : String) : Value → Value
  | .resource _ => .resource text
  | .literal _ datatype => .literal text datatype

@[simp]
theorem Value.datatype?_withData (text : String) (v : Value) :
    (v.withData text).datatype? = v.datatype? := by
  cases v <;> rfl

namespace Codec

open Outcome (map_eq_ok)

/-! ## Adding resolvers -/

/-- The resolvers of a datatype, or of resources, in order. -/
def ofDatatype (rs : List Resolver) (datatype : Option String) : List Resolver :=
  rs.filter fun r => r.datatype = datatype

theorem mem_ofDatatype {rs : List Resolver} {datatype : Option String} {r : Resolver} :
    r ∈ ofDatatype rs datatype ↔ r ∈ rs ∧ r.datatype = datatype := by
  simp [ofDatatype]

/-- A resolver that is added is the only one of its datatype, and no other datatype changes. -/
theorem ofDatatype_replace (rs : List Resolver) (r : Resolver) (datatype : Option String) :
    ofDatatype (replace rs r) datatype
      = if r.datatype = datatype then [r] else ofDatatype rs datatype := by
  unfold ofDatatype replace
  rw [List.filter_append, List.filter_filter]
  split
  · next own =>
    subst own
    simp
  · next other =>
    have kept : rs.filter (fun old => decide (old.datatype = datatype)
          && decide (old.datatype ≠ r.datatype))
        = rs.filter fun old => old.datatype = datatype := by
      refine List.filter_congr fun old _ => ?_
      grind
    rw [kept, List.filter_singleton, decide_eq_false other]
    exact List.append_nil _

theorem ofDatatype_concat (rs : List Resolver) (r : Resolver) (datatype : Option String) :
    ofDatatype (rs ++ [r]) datatype
      = ofDatatype rs datatype ++ if r.datatype = datatype then [r] else [] := by
  simp [ofDatatype, List.filter_append, List.filter_singleton]

/-- Where each datatype occurs once, its resolver is the last one of it. -/
theorem ofDatatype_of_nodup {rs : List Resolver} (nodup : (rs.map Resolver.datatype).Nodup)
    (datatype : Option String) :
    ofDatatype rs datatype = (ofDatatype rs datatype).getLast?.toList := by
  have same : (ofDatatype rs datatype).map Resolver.datatype
      = List.replicate (ofDatatype rs datatype).length datatype := by
    rw [List.map_eq_replicate_iff]
    exact fun r mem => (mem_ofDatatype.mp mem).2
  have once : ((ofDatatype rs datatype).map Resolver.datatype).Nodup :=
    nodup.sublist (List.filter_sublist.map _)
  rw [same, List.nodup_replicate] at once
  match ofDatatype rs datatype, once with
  | [], _ => rfl
  | [r], _ => rfl

/-- Of each datatype the last resolver is left. -/
theorem ofDatatype_foldl_replace {rs : List Resolver} (nodup : (rs.map Resolver.datatype).Nodup)
    (added : List Resolver) (datatype : Option String) :
    ofDatatype (added.foldl replace rs) datatype
      = (ofDatatype (rs ++ added) datatype).getLast?.toList := by
  -- by induction on the resolvers added, the last one taken off
  induction added using List.reverseRecOn with
  | nil => rw [List.foldl_nil, List.append_nil, ← ofDatatype_of_nodup nodup]
  | append_singleton added r ih =>
    rw [List.foldl_append, List.foldl_cons, List.foldl_nil, ofDatatype_replace,
      ← List.append_assoc, ofDatatype_concat]
    split
    · simp
    · rw [List.append_nil, ih]

variable {rs : List Resolver} {c : Codec}

/-- A codec is built from its resolvers, and from no others. -/
theorem build_eq_ok : build rs = .ok c ↔ c.resolvers = rs := by
  unfold build
  constructor
  · intro built
    split at built
    · rw [← Except.ok.inj built]
    · cases built
  · rintro rfl
    split
    · rfl
    · next refused =>
      rw [validate_eq_ok_iff.mpr c.wellFormed] at refused
      cases refused

/-- A codec that is built has the resolvers that are left. -/
theorem extended_eq_ok : extended rs = .ok c ↔ c.resolvers = rs.foldl replace Resolver.standard :=
  build_eq_ok

/-- A codec has the last resolver of each datatype, and no other. -/
theorem ofDatatype_extended (built : extended rs = .ok c) (datatype : Option String) :
    ofDatatype c.resolvers datatype
      = (ofDatatype (Resolver.standard ++ rs) datatype).getLast?.toList := by
  rw [extended_eq_ok.mp built]
  exact ofDatatype_foldl_replace standard.wellFormed.datatypes rs datatype

/-- There is one resolver of resources, since the standard resolvers have one. -/
theorem exists_resource_extended (built : extended rs = .ok c) :
    ∃ r, ofDatatype c.resolvers none = [r] := by
  have among : Resolver.resource ∈ ofDatatype (Resolver.standard ++ rs) none :=
    mem_ofDatatype.mpr ⟨List.mem_append_left _ List.mem_cons_self, rfl⟩
  obtain ⟨r, last⟩ := Option.ne_none_iff_exists'.mp fun none =>
    List.ne_nil_of_mem among (List.getLast?_eq_none_iff.mp none)
  exact ⟨r, by rw [ofDatatype_extended built, last, Option.toList_some]⟩

/-- The resolver of a value is the last one added for its datatype. -/
theorem extended_resolverOf_iff (built : extended rs = .ok c) {v : Value} {r : Resolver} :
    c.resolverOf v = .ok r ↔
      (ofDatatype (Resolver.standard ++ rs) v.datatype?).getLast? = some r := by
  rw [resolverOf_eq_ok, ← mem_ofDatatype, ofDatatype_extended built, Option.mem_toList]

/-! ## Dispatch -/

/-- No object is the start of another one: one that starts another is the same bytes, written by the
same resolver from the same data. -/
theorem eq_of_isPrefix {v w : Value} {a b : Bytes} (hv : c.encodeObject v = .ok a)
    (hw : c.encodeObject w = .ok b) (start : a <+: b) :
    a = b ∧ v.datatype? = w.datatype? ∧ ∃ r data, c.resolverOf v = .ok r ∧ c.resolverOf w = .ok r
      ∧ r.write v.data = .ok data ∧ r.write w.data = .ok data := by
  obtain ⟨r, mem, same, data, write, free, rfl⟩ := encodeObject_eq_ok.mp hv
  obtain ⟨r', mem', same', data', write', free', rfl⟩ := encodeObject_eq_ok.mp hw
  obtain ⟨rest, whole⟩ := start
  rw [List.append_assoc] at whole
  obtain ⟨rfl, tails⟩ := Bytes.append_tail_inj free free' (Bytes.isTail_cons _ _)
    (Bytes.isTail_cons _ _) whole
  have marker : r.marker = r'.marker := by simpa using congrArg List.head? (congrArg List.tail tails)
  obtain rfl := eq_of_marker_eq mem mem' marker
  exact ⟨rfl, same.symm.trans same', r, data, resolverOf_eq_ok.mpr ⟨mem, same⟩,
    resolverOf_eq_ok.mpr ⟨mem, same'⟩, write, write'⟩

/-- An object is read by the resolver that wrote it, from the data that it wrote, as a value of the
same datatype. -/
theorem decodeObject_eq_map {v : Value} {bytes : Bytes} (h : c.encodeObject v = .ok bytes) :
    ∃ r data, c.resolverOf v = .ok r ∧ r.write v.data = .ok data
      ∧ bytes = data ++ [Key.markerDelimiter, r.marker]
      ∧ c.decodeObject bytes = (r.read data).map fun text => v.withData text := by
  obtain ⟨r, mem, same, data, write, _, rfl⟩ := encodeObject_eq_ok.mp h
  refine ⟨r, data, resolverOf_eq_ok.mpr ⟨mem, same⟩, write, rfl, ?_⟩
  rw [decodeObject_append mem, same]
  cases v <;> rfl

/-- In every codec that is built from the standard resolvers and others, of any kind and added in any
order, markers are distinct and none is a byte that keys reserve; there is one resolver of resources,
and of each datatype the last one added, by which its values are written. An object that starts
another is the same bytes, of a value of the same datatype with the same data. An object is read by
the resolver that wrote it, from the bytes that it wrote, as a value of the same datatype. -/
theorem extended_dispatch (rs : List Resolver) (c : Codec) (built : extended rs = .ok c) :
    ((c.resolvers.map Resolver.marker).Nodup
        ∧ ∀ r ∈ c.resolvers, r.marker ≠ 0x00 ∧ r.marker ≠ 0x01 ∧ r.marker ≠ 0xFF)
      ∧ ((∃ r, ofDatatype c.resolvers none = [r])
        ∧ ∀ datatype, ofDatatype c.resolvers datatype
          = (ofDatatype (Resolver.standard ++ rs) datatype).getLast?.toList)
      ∧ (∀ v r, c.resolverOf v = .ok r ↔
          (ofDatatype (Resolver.standard ++ rs) v.datatype?).getLast? = some r)
      ∧ (∀ v w a b, c.encodeObject v = .ok a → c.encodeObject w = .ok b → a <+: b →
          a = b ∧ v.datatype? = w.datatype? ∧ ∃ r data, c.resolverOf v = .ok r
            ∧ c.resolverOf w = .ok r ∧ r.write v.data = .ok data ∧ r.write w.data = .ok data)
      ∧ ∀ v bytes, c.encodeObject v = .ok bytes → ∃ r data, c.resolverOf v = .ok r
          ∧ r.write v.data = .ok data ∧ bytes = data ++ [Key.markerDelimiter, r.marker]
          ∧ c.decodeField .object bytes = (r.read data).map (fun text => v.withData text)
          ∧ ∀ w, c.decodeField .object bytes = .ok w → w.datatype? = v.datatype? := by
  refine ⟨⟨c.wellFormed.markers, fun r mem => ?_⟩,
    ⟨exists_resource_extended built, ofDatatype_extended built⟩,
    fun v r => extended_resolverOf_iff built, fun v w a b => eq_of_isPrefix, fun v bytes h => ?_⟩
  · have free := c.wellFormed.free r mem
    simp only [isReserved, decide_eq_false_iff_not, not_or] at free
    exact free
  · obtain ⟨r, data, own, write, whole, read⟩ := decodeObject_eq_map h
    refine ⟨r, data, own, write, whole, read, fun w decoded => ?_⟩
    obtain ⟨text, _, rfl⟩ := map_eq_ok.mp (read.symm.trans decoded)
    exact Value.datatype?_withData text v

/-- Resolvers that swap the markers of resources and texts. Texts are registered twice. -/
def swapped : List Resolver :=
  [Resolver.styled none 0x03 (.ending []), Resolver.styled (some Xsd.string) 0x50 (.ending []),
    Resolver.styled (some Xsd.string) 0x02 .upper]

/-- The standard codec with those resolvers. -/
def swappedCodec : Codec :=
  ⟨swapped.foldl replace Resolver.standard, by decide +kernel⟩

/-- With the markers of resources and texts swapped and texts written in upper case, two texts have
one object. The resolver that is registered last wrote both, and reads a text back. -/
theorem extended_dispatch_swapped :
    let object : Bytes := [0x41, 0x01, 0x02]
    extended swapped = .ok swappedCodec
      ∧ ofDatatype swappedCodec.resolvers (some Xsd.string)
        = [Resolver.styled (some Xsd.string) 0x02 .upper]
      ∧ swappedCodec.encodeObject (.plain "a") = .ok object
      ∧ swappedCodec.encodeObject (.plain "A") = .ok object
      ∧ (∃ r data, swappedCodec.resolverOf (.plain "a") = .ok r
        ∧ swappedCodec.resolverOf (.plain "A") = .ok r ∧ r.write "a" = .ok data
        ∧ r.write "A" = .ok data)
      ∧ ∃ w, swappedCodec.decodeField .object object = .ok w ∧ w.datatype? = some Xsd.string := by
  intro object
  have built : extended swapped = .ok swappedCodec := extended_eq_ok.mpr rfl
  have lower : swappedCodec.encodeObject (.plain "a") = .ok object := by decide +kernel
  have upper : swappedCodec.encodeObject (.plain "A") = .ok object := by decide +kernel
  have decoded : swappedCodec.decodeField .object object = .ok (.plain "A") := by decide +kernel
  obtain ⟨_, ⟨_, last⟩, _, start, reads⟩ := extended_dispatch swapped swappedCodec built
  obtain ⟨_, _, wrote⟩ := start _ _ _ _ lower upper (List.prefix_refl _)
  obtain ⟨_, _, _, _, _, _, kind⟩ := reads _ _ lower
  exact ⟨built, last _, lower, upper, wrote, _, decoded, kind _ decoded⟩

end Codec

end TripleIndex
