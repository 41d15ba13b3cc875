import AnySpans.Proofs.DistinctKeys
import AnySpans.Settings.Style

/-!
# Which values describe a style

`Style.read` accepts a table of known properties, each a text that is not blank, at least one of them
given (`Describes`), and answers with the style of just these properties (`Style.read_eq_ok_iff`).
So a style that is accepted has a property, and none that is blank (`Describes.usable`).
-/

namespace AnySpans.Settings

open AnySpans.Toml AnySpans.Decoding AnySpans.Text

variable {name t : String} {v : Value} {es : Entries} {s s' : Style}

/-- The text a value gives to a property. -/
def textOf : Value → Option String
  | .string s => some s
  | .moment m => some m.text
  | _ => none

/-- A property that can be given: it is known, and its value a text that is not blank. -/
def IsProperty (e : String × Value) : Prop :=
  e.1 ∈ Style.names ∧ ∃ t, textOf e.2 = some t ∧ hasNoText t.toList = false

/-- The properties a table gives. -/
def propertiesOf (es : Entries) : List (String × Option String) :=
  Style.names.map fun name => (name, (lookup name es).bind textOf)

/-- A value describes a style: it is a table of properties, not without any, and the style has the texts
of these properties. -/
def Describes (v : Value) (s : Style) : Prop :=
  ∃ o es, v = .table o es ∧ es ≠ [] ∧ (∀ e ∈ es, IsProperty e) ∧
    s.properties = propertiesOf es

/-- A style that can be used: some property is set, and none is blank. -/
structure Style.Usable (s : Style) : Prop where
  set : ∃ p ∈ s.properties, p.2 ≠ none
  notBlank : ∀ p ∈ s.properties, ∀ t, p.2 = some t → hasNoText t.toList = false

theorem usable_builtIn : Style.builtIn.Usable where
  set := by decide
  notBlank := by decide

theorem propertyText_of_textOf (h : textOf v = some t) : propertyText v = .ok t := by
  unfold textOf at h
  split at h
  · cases h
    rfl
  · cases h
    rfl
  · cases h

theorem exists_propertyText_error (h : textOf v = none) : ∃ m, propertyText v = .error m := by
  unfold propertyText
  split
  · cases h
  · cases h
  · exact ⟨_, rfl⟩

/-! ### One property after another -/

/-- A style with the properties of a table. -/
def Style.after (s : Style) (es : Entries) : Style where
  backgroundColor := ((lookup "background-color" es).bind textOf).or s.backgroundColor
  borderRadius := ((lookup "border-radius" es).bind textOf).or s.borderRadius
  border := ((lookup "border" es).bind textOf).or s.border
  color := ((lookup "color" es).bind textOf).or s.color

theorem Style.properties_after (es : Entries) : (bare.after es).properties = propertiesOf es := by
  simp [properties, propertiesOf, names, after, bare]

theorem Style.after_set (hname : name ∈ names) (ht : textOf v = some t) (hkey : name ∉ keys es) :
    ((s.set name t).getD s).after es = s.after ((name, v) :: es) := by
  have hnone := lookup_eq_none_iff.2 hkey
  simp only [names, List.mem_cons, List.not_mem_nil, or_false] at hname
  obtain rfl | rfl | rfl | rfl := hname <;> simp [set, after, lookup_cons, hnone, ht]

theorem readProperties_of_texts (hnodup : (keys es).Nodup)
    (hes : ∀ e ∈ es, e.1 ∈ Style.names ∧ ∃ t, textOf e.2 = some t) :
    readProperties s es = .ok (s.after es) := by
  induction es generalizing s with
  | nil => simp [readProperties, Style.after, lookup_nil]
  | cons e es ih =>
    obtain ⟨name, v⟩ := e
    obtain ⟨hkey, hrest⟩ := List.nodup_cons.1 hnodup
    obtain ⟨⟨hname, t, ht⟩, hlater⟩ := List.forall_mem_cons.1 hes
    rw [readProperties, if_pos (List.contains_iff_mem.2 hname), propertyText_of_textOf ht,
      ← Style.after_set hname ht hkey]
    exact ih hrest hlater

theorem texts_of_readProperties (h : readProperties s es = .ok s') :
    ∀ e ∈ es, e.1 ∈ Style.names ∧ ∃ t, textOf e.2 = some t := by
  induction es generalizing s with
  | nil => nofun
  | cons e es ih =>
    obtain ⟨name, v⟩ := e
    rw [readProperties] at h
    split at h
    · rename_i hname
      cases ht : textOf v with
      | none =>
        obtain ⟨m, hm⟩ := exists_propertyText_error ht
        rw [hm] at h
        cases h
      | some t =>
        rw [propertyText_of_textOf ht] at h
        exact List.forall_mem_cons.2 ⟨⟨List.contains_iff_mem.1 hname, t, ht⟩, ih h⟩
    · cases h

theorem Style.exists_property_iff :
    (s.properties.all fun p => p.2.isNone) ≠ true ↔ ∃ p ∈ s.properties, p.2 ≠ none := by
  simp only [ne_eq, Bool.not_eq_true, List.all_eq_false, Option.isNone_iff_eq_none]

theorem Style.no_blank_iff : (s.properties.find? fun p => p.2.any fun t => hasNoText t.toList) = none ↔
    ∀ p ∈ s.properties, ∀ t, p.2 = some t → hasNoText t.toList = false := by
  rw [List.find?_eq_none]
  refine forall₂_congr fun p _ => ?_
  cases p.2 with
  | none => simp
  | some t => simp

/-- The check lets the styles pass that can be used, and does not change them. -/
theorem Style.check_eq_ok_iff : s.check = .ok s' ↔ s.Usable ∧ s' = s := by
  unfold check
  split
  · rename_i hbare
    exact iff_of_false nofun fun h => exists_property_iff.2 h.1.set hbare
  · rename_i hset
    split
    · rename_i hblank
      refine iff_of_false nofun fun h => ?_
      rw [no_blank_iff.2 h.1.notBlank] at hblank
      cases hblank
    · rename_i hnone
      exact ⟨fun h => ⟨⟨exists_property_iff.1 hset, no_blank_iff.1 hnone⟩, (Except.ok.inj h).symm⟩,
        fun h => h.2 ▸ rfl⟩

/-! ### Tables -/

theorem sortedEntries_perm (es : Entries) : (sortedEntries es).Perm es :=
  List.mergeSort_perm es _

theorem nodup_keys_sortedEntries (h : (keys es).Nodup) : (keys (sortedEntries es)).Nodup :=
  ((sortedEntries_perm es).map Prod.fst).nodup_iff.2 h

theorem lookup_sortedEntries (h : (keys es).Nodup) (key : String) :
    lookup key (sortedEntries es) = lookup key es :=
  lookup_perm h (sortedEntries_perm es) key

/-- A style is given by its properties. -/
theorem Style.eq_of_properties (h : s.properties = s'.properties) : s = s' := by
  simp only [properties, names, List.zip_cons_cons, List.cons.injEq, Prod.mk.injEq, true_and] at h
  obtain ⟨h₁, h₂, h₃, h₄, -⟩ := h
  cases s
  cases s'
  simp_all only

theorem mem_propertiesOf_iff {p : String × Option String} :
    p ∈ propertiesOf es ↔ p.1 ∈ Style.names ∧ p.2 = (lookup p.1 es).bind textOf := by
  rw [propertiesOf, List.mem_map]
  constructor
  · rintro ⟨name, hname, rfl⟩
    exact ⟨hname, rfl⟩
  · rintro ⟨hname, hp⟩
    exact ⟨p.1, hname, by rw [← hp]⟩

/-- The style of a table of texts can be used if and only if there are some, and none of them is
blank. -/
theorem Style.usable_iff (hnodup : (keys es).Nodup)
    (htexts : ∀ e ∈ es, e.1 ∈ names ∧ ∃ t, textOf e.2 = some t) (h : s.properties = propertiesOf es) :
    s.Usable ↔ es ≠ [] ∧ ∀ e ∈ es, IsProperty e := by
  have hgiven : ∀ e ∈ es, (e.1, textOf e.2) ∈ s.properties := fun e he => by
    rw [h]
    refine mem_propertiesOf_iff.2 ⟨(htexts e he).1, ?_⟩
    rw [(lookup_eq_some_iff hnodup).2 he]
    rfl
  constructor
  · intro hs
    refine ⟨?_, fun e he => ?_⟩
    · rintro rfl
      obtain ⟨p, hp, hset⟩ := hs.set
      exact hset (mem_propertiesOf_iff.1 (h ▸ hp)).2
    · obtain ⟨hname, t, ht⟩ := htexts e he
      exact ⟨hname, t, ht, hs.notBlank _ (hgiven e he) t ht⟩
  · rintro ⟨hne, hes⟩
    obtain ⟨e, he⟩ := List.exists_mem_of_ne_nil es hne
    obtain ⟨-, t, ht⟩ := htexts e he
    refine ⟨⟨_, hgiven e he, ht ▸ Option.some_ne_none t⟩, fun p hp t ht => ?_⟩
    rw [(mem_propertiesOf_iff.1 (h ▸ hp)).2] at ht
    obtain ⟨v, hv, ht⟩ := Option.bind_eq_some_iff.1 ht
    obtain ⟨-, t', ht', hblank⟩ := hes _ (mem_of_lookup hv)
    cases ht.symm.trans ht'
    exact hblank

/-- What is accepted of a value with distinct keys is what describes a style, and the style it
describes. -/
theorem Style.read_eq_ok_iff (hv : v.Keyed) : read v = .ok s ↔ Describes v s := by
  cases v with
  | table o es =>
    have hnodup := (keyed_table_iff.1 hv).nodup
    have hproperties : (bare.after (sortedEntries es)).properties = propertiesOf es := by
      rw [properties_after, propertiesOf]
      exact List.map_congr_left fun name _ => by rw [lookup_sortedEntries hnodup]
    have hsorted : ∀ {P : String × Value → Prop}, (∀ e ∈ sortedEntries es, P e) ↔ ∀ e ∈ es, P e :=
      forall_congr' fun e => imp_congr_left (sortedEntries_perm es).mem_iff
    rw [read]
    constructor
    · intro h
      split at h
      · rename_i s' hread
        have htexts := texts_of_readProperties hread
        rw [readProperties_of_texts (nodup_keys_sortedEntries hnodup) htexts] at hread
        cases hread
        obtain ⟨husable, rfl⟩ := check_eq_ok_iff.1 h
        obtain ⟨hne, hes⟩ := (usable_iff hnodup (hsorted.1 htexts) hproperties).1 husable
        exact ⟨o, es, rfl, hne, hes, hproperties⟩
      · cases h
    · rintro ⟨_, _, hes, hne, hall, hs⟩
      cases hes
      have htexts : ∀ e ∈ es, e.1 ∈ names ∧ ∃ t, textOf e.2 = some t := fun e he =>
        ⟨(hall e he).1, (hall e he).2.imp fun _ => And.left⟩
      rw [readProperties_of_texts (nodup_keys_sortedEntries hnodup) (hsorted.2 htexts)]
      exact check_eq_ok_iff.2 ⟨(usable_iff hnodup htexts hproperties).2 ⟨hne, hall⟩,
        eq_of_properties (hs.trans hproperties.symm)⟩
  | _ => exact iff_of_false nofun nofun

/-- A style that a value describes can be used. -/
theorem Describes.usable (hv : v.Keyed) (h : Describes v s) : s.Usable := by
  obtain ⟨o, es, rfl, hne, hes, hs⟩ := h
  exact (Style.usable_iff (keyed_table_iff.1 hv).nodup
    (fun e he => ⟨(hes e he).1, (hes e he).2.imp fun _ => And.left⟩) hs).2 ⟨hne, hes⟩

end AnySpans.Settings
