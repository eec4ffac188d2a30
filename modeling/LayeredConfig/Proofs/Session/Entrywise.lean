import LayeredConfig.Proofs.Session.EachEntry

/-!
# Properties of flags that entries keep

An invariant that says of every entry how its flags go with its being a section is `Entrywise E`,
the special case of `EachEntry` in which neither the key nor its history matters. A write leaves
flags of its own and a merge those of the source, so such an invariant is kept without any condition
on how flags are put together.
-/

namespace LayeredConfig.Section

variable {E : (isSubsection : Bool) → Flags → Prop} {s s' dst src out : Section} {key : String}
  {e : Entry} {p path : List String}

/-- The keys of a section are distinct, and the flags of all of its entries satisfy `E`. -/
structure Entrywise (E : (isSubsection : Bool) → Flags → Prop) (s : Section) : Prop where
  keysDistinct : s.KeysDistinct
  entry : ∀ {k e}, s.entries.get? k = some e → E e.value.isSubsection e.attrs.flags

/-- A property of flags is a property of entries that looks at neither key nor history. -/
theorem entrywise_eq (E : (isSubsection : Bool) → Flags → Prop) :
    Entrywise E = EachEntry fun _ b attrs => E b attrs.flags :=
  funext fun _ => propext ⟨fun ⟨hkeys, hentry⟩ => ⟨hkeys, hentry⟩,
    fun ⟨hkeys, hentry⟩ => ⟨hkeys, hentry⟩⟩

/-- A section without entries has no flags. -/
theorem entrywise_of_isEmpty (name : Option String) : Everywhere (Entrywise E) ⟨name, ∅⟩ := by
  rw [entrywise_eq]
  exact eachEntry_of_isEmpty name

/-- What holds of the flags of all entries holds of those at the end of a path. -/
theorem Entrywise.entryAt? (hs : s.Everywhere (Entrywise E)) (h : s.entryAt? p = some e) :
    E e.value.isSubsection e.attrs.flags := by
  rw [entrywise_eq] at hs
  rcases List.eq_nil_or_concat' p with rfl | ⟨q, k, rfl⟩
  · cases h
  · exact EachEntry.entryAt? hs h

/-! ## Writes -/

/-- An update below a path keeps a property of flags if it does so at the end of the path. -/
theorem entrywise_of_updatesAt {f : Section → Except ε Section}
    (hf : ∀ s s', s.Everywhere (Entrywise E) → f s = .ok s' → s'.Everywhere (Entrywise E))
    (hs : s.Everywhere (Entrywise E)) (h : UpdatesAt f path s s') :
    s'.Everywhere (Entrywise E) := by
  rw [entrywise_eq] at *
  exact eachEntry_of_updatesAt hf hs h

/-- An assignment keeps the property if the flags that it sets satisfy it. -/
theorem entrywise_of_overwritten {value : Value} {flags : Flags} {origin : Origin}
    (hvalue : value.isSubsection = false) (hflags : E false flags)
    (hs : s.Everywhere (Entrywise E)) (he : Overwritten value flags origin (s.entries.get? key) e)
    (h : Writes s key e s') : s'.Everywhere (Entrywise E) := by
  rw [entrywise_eq] at *
  exact eachEntry_of_overwritten hvalue hflags hs he h

/-- A header keeps the property if sections may have no flags, and lose the permission that they
have. -/
theorem entrywise_of_entered {origin : Origin} (hfresh : E true {})
    (hagain : ∀ flags, E true flags → E true { flags with writable := false })
    (hs : s.Everywhere (Entrywise E)) (he : Draft.Entered key origin (s.entries.get? key) e)
    (h : Writes s key e s') : s'.Everywhere (Entrywise E) := by
  rw [entrywise_eq] at *
  exact eachEntry_of_entered hfresh (fun attrs => hagain attrs.flags) hs he h

/-! ## Merges -/

/-- A merge keeps the property without any condition, since the flags are those of one side. -/
theorem entrywise_of_merge (hdst : dst.Everywhere (Entrywise E))
    (hsrc : src.Everywhere (Entrywise E)) (h : dst.merge src = .ok out) :
    out.Everywhere (Entrywise E) := by
  rw [entrywise_eq] at *
  exact eachEntry_of_merge (fun _ hnew => hnew) hdst hsrc h

/-! ## Permission to overwrite -/

/-- Granting permission to a tree keeps a property that allows any permission. -/
theorem entrywise_setWritableDeep (writable : Bool)
    (hwritable : ∀ b flags, E b flags → E b { flags with writable })
    (hs : s.Everywhere (Entrywise E)) : (s.setWritableDeep writable).Everywhere (Entrywise E) := by
  rw [entrywise_eq] at *
  exact eachEntry_setWritableDeep writable (hwritable _ _) hs

end LayeredConfig.Section
