import AnySpans.Toml.Reader

/-!
# Distinct keys

In a table that was read every key is given once, in the tables inside it too (`Keyed`): whatever is
put into a table takes the place of what was there (`Keyed.put`), and every way of filling a table
ends in putting values under keys (`Keyed.descend`, `Keyed.insertAt`).  So the table of a text has one
value for each of its keys (`keyed_read`).
-/

namespace AnySpans.Toml

variable {k key : String} {v : Value} {es es' : Entries} {e : String × Value} {o o' : Origin}

/-! ### Tables and their keys -/

/-- The keys of a table. -/
def keys (es : Entries) : List String := es.map Prod.fst

mutual

/-- All tables of a value have distinct keys. -/
def Value.Keyed : Value → Prop
  | .list _ vs => AllKeyed vs
  | .table _ es => (keys es).Nodup ∧ EachKeyed es
  | _ => True

/-- All tables of the items of a list have distinct keys. -/
def AllKeyed : List Value → Prop
  | [] => True
  | v :: vs => v.Keyed ∧ AllKeyed vs

/-- All tables of the values of a table have distinct keys. -/
def EachKeyed : List (String × Value) → Prop
  | [] => True
  | (_, v) :: es => v.Keyed ∧ EachKeyed es

end

theorem allKeyed_iff {vs : List Value} : AllKeyed vs ↔ ∀ v ∈ vs, v.Keyed := by
  induction vs with
  | nil => simp [AllKeyed]
  | cons v vs ih => simp [AllKeyed, ih]

theorem eachKeyed_iff : EachKeyed es ↔ ∀ e ∈ es, e.2.Keyed := by
  induction es with
  | nil => simp [EachKeyed]
  | cons e es ih => simp [EachKeyed, ih]

/-- A table with distinct keys, and so for the tables inside it. -/
structure Keyed (es : Entries) : Prop where
  nodup : (keys es).Nodup
  values : ∀ e ∈ es, e.2.Keyed

theorem keyed_table_iff : (Value.table o es).Keyed ↔ Keyed es := by
  rw [Value.Keyed, eachKeyed_iff]
  exact ⟨fun h => ⟨h.1, h.2⟩, fun h => ⟨h.nodup, h.values⟩⟩

theorem keyed_nil : Keyed [] := ⟨.nil, nofun⟩

/-! ### Looking up and putting -/

theorem lookup_nil (key : String) : lookup key [] = none := rfl

theorem lookup_cons (key : String) (e : String × Value) (es : Entries) :
    lookup key (e :: es) = if e.1 = key then some e.2 else lookup key es := by
  rw [lookup, List.find?_cons]
  by_cases h : e.1 = key
  · simp [h]
  · rw [if_neg h, beq_eq_false_iff_ne.2 h]
    rfl

theorem mem_of_lookup (h : lookup key es = some v) : (key, v) ∈ es := by
  obtain ⟨e, he, rfl⟩ := Option.map_eq_some_iff.1 h
  have hkey := List.find?_some he
  rw [← eq_of_beq hkey]
  exact List.mem_of_find?_eq_some he

theorem lookup_eq_none_iff : lookup key es = none ↔ key ∉ keys es := by
  induction es with
  | nil => exact iff_of_true rfl List.not_mem_nil
  | cons e es ih =>
    rw [lookup_cons]
    by_cases he : e.1 = key
    · rw [if_pos he]
      exact iff_of_false (Option.some_ne_none e.2) (not_not_intro (he ▸ List.mem_cons_self))
    · rw [if_neg he, ih]
      exact not_congr (List.mem_cons.trans (or_iff_right fun h => he h.symm)).symm

/-- With distinct keys a table has one value for each. -/
theorem lookup_eq_some_iff (h : (keys es).Nodup) : lookup key es = some v ↔ (key, v) ∈ es := by
  refine ⟨mem_of_lookup, fun hmem => ?_⟩
  induction es with
  | nil => cases hmem
  | cons e es ih =>
    obtain ⟨hfirst, hrest⟩ := List.nodup_cons.1 h
    rw [lookup_cons]
    obtain rfl | hmem := List.mem_cons.1 hmem
    · exact if_pos rfl
    · rw [if_neg, ih hrest hmem]
      rintro rfl
      exact hfirst (List.mem_map.2 ⟨_, hmem, rfl⟩)

theorem lookup_perm (h : (keys es).Nodup) (hperm : es'.Perm es) (key : String) :
    lookup key es' = lookup key es := by
  have h' : (keys es').Nodup := (hperm.map Prod.fst).nodup_iff.2 h
  refine Option.ext fun v => ?_
  rw [lookup_eq_some_iff h', lookup_eq_some_iff h, hperm.mem_iff]

/-- What is found first in a table, or else under a key that the table does not have, is found in the
table with that key. -/
theorem lookup_bind_or {α : Type} {f : Value → Option α} (hkey : key ∉ keys es) (k : String)
    (o : Option α) : ((lookup k es).bind f).or (((lookup k [(key, v)]).bind f).or o) =
      ((lookup k ((key, v) :: es)).bind f).or o := by
  rw [lookup_cons, lookup_cons, lookup_nil]
  by_cases h : key = k
  · rw [if_pos h, if_pos h, lookup_eq_none_iff.2 (h ▸ hkey)]
    rfl
  · rw [if_neg h, if_neg h]
    rfl

theorem mem_put (h : e ∈ put key v es) : e = (key, v) ∨ e ∈ es := by
  induction es with
  | nil => exact .inl (List.mem_singleton.1 h)
  | cons d es ih =>
    rw [put] at h
    split at h
    · exact (List.mem_cons.1 h).imp_right (List.mem_cons_of_mem d)
    · obtain rfl | h := List.mem_cons.1 h
      · exact .inr List.mem_cons_self
      · exact (ih h).imp_right (List.mem_cons_of_mem d)

theorem keys_put (key : String) (v : Value) (es : Entries) :
    keys (put key v es) = if key ∈ keys es then keys es else keys es ++ [key] := by
  induction es with
  | nil => rfl
  | cons e es ih =>
    rw [put]
    by_cases he : e.1 = key
    · have hmem : key ∈ keys (e :: es) := he ▸ List.mem_cons_self
      rw [if_pos (beq_iff_eq.2 he), if_pos hmem]
      exact congrArg (· :: keys es) he.symm
    · have hmem : key ∈ keys (e :: es) ↔ key ∈ keys es :=
        List.mem_cons.trans (or_iff_right fun h => he h.symm)
      rw [if_neg fun h => he (eq_of_beq h)]
      simp only [hmem]
      show e.1 :: keys (put key v es) = if key ∈ keys es then e.1 :: keys es else e.1 :: keys es ++ [key]
      rw [ih]
      split <;> rfl

theorem Keyed.lookup (h : Keyed es) (hv : Toml.lookup key es = some v) : v.Keyed :=
  h.values _ (mem_of_lookup hv)

theorem Keyed.put (h : Keyed es) (hv : v.Keyed) : Keyed (put key v es) where
  nodup := by
    rw [keys_put]
    split
    · exact h.nodup
    · rename_i hkey
      refine List.nodup_append.2 ⟨h.nodup, List.nodup_cons.2 ⟨List.not_mem_nil, .nil⟩, ?_⟩
      rintro _ hmem _ hmem' rfl
      exact hkey (List.mem_singleton.1 hmem' ▸ hmem)
  values e he := by
    obtain rfl | he := mem_put he
    · exact hv
    · exact h.values e he

/-! ### Filling tables -/

/-- A change of tables that keeps keys distinct. -/
def KeepsKeyed (f : Origin → Entries → Option (Origin × Entries)) : Prop :=
  ∀ o es o' es', f o es = some (o', es') → Keyed es → Keyed es'

theorem KeepsKeyed.descend {f : Origin → Entries → Option (Origin × Entries)} (hf : KeepsKeyed f)
    (viaKeys : Bool) (path : List String) : KeepsKeyed (descend viaKeys f path) := by
  induction path with
  | nil => exact hf
  | cons k ks ih =>
    intro o es o' es' h hes
    rw [Toml.descend] at h
    -- in each case a table is changed further down and put in its place again
    have hput : ∀ {inner : Entries} {origin : Origin} {p : Origin × Entries},
        Toml.descend viaKeys f ks origin inner = some p → Keyed inner → (Value.table p.1 p.2).Keyed :=
      fun hinner hkeyed => keyed_table_iff.2 (ih _ _ _ _ hinner hkeyed)
    split at h
    · obtain ⟨p, hinner, h⟩ := Option.bind_eq_some_iff.1 h
      cases h
      exact hes.put (hput hinner keyed_nil)
    · rename_i origin inner hlookup
      split at h
      · cases h
      · obtain ⟨p, hinner, h⟩ := Option.bind_eq_some_iff.1 h
        cases h
        exact hes.put (hput hinner (keyed_table_iff.1 (hes.lookup hlookup)))
    · rename_i items hlookup
      have hitems := allKeyed_iff.1 (hes.lookup hlookup)
      split at h
      · rename_i origin inner hlast
        obtain ⟨p, hinner, h⟩ := Option.bind_eq_some_iff.1 h
        cases h
        have hinnerKeyed := keyed_table_iff.1 (hitems _ (List.mem_of_getLast? hlast))
        refine hes.put (allKeyed_iff.2 fun v hv => ?_)
        obtain hv | hv := List.mem_append.1 hv
        · exact hitems v ((List.dropLast_sublist _).mem hv)
        · rw [List.mem_singleton.1 hv]
          exact hput hinner hinnerKeyed
      · cases h
    · cases h

theorem keepsKeyed_insertAt (path : List String) (hv : v.Keyed) : KeepsKeyed (insertAt path v) := by
  intro o es o' es' h
  rw [insertAt] at h
  split at h
  · cases h
  · refine KeepsKeyed.descend ?_ true _ o es o' es' h
    intro o es o' es' h hes
    dsimp only at h
    split at h
    · cases h
    · split at h
      · cases h
      · cases h
        exact hes.put hv

theorem keepsKeyed_openTable (last : String) : KeepsKeyed (openTable last) := by
  intro o es o' es' h hes
  unfold openTable at h
  split at h
  · cases h
    exact hes.put (keyed_table_iff.2 keyed_nil)
  · rename_i inner hlookup
    cases h
    exact hes.put (keyed_table_iff.2 (keyed_table_iff.1 (hes.lookup hlookup)))
  · cases h

theorem keepsKeyed_openItem (last : String) : KeepsKeyed (openItem last) := by
  intro o es o' es' h hes
  have hempty : (Value.table .header []).Keyed := keyed_table_iff.2 keyed_nil
  unfold openItem at h
  split at h
  · cases h
    exact hes.put (allKeyed_iff.2 fun v hv => List.mem_singleton.1 hv ▸ hempty)
  · rename_i items hlookup
    cases h
    refine hes.put (allKeyed_iff.2 fun v hv => ?_)
    obtain hv | hv := List.mem_append.1 hv
    · exact allKeyed_iff.1 (hes.lookup hlookup) v hv
    · exact List.mem_singleton.1 hv ▸ hempty
  · cases h

/-! ### Reading -/

theorem keyed_readBare {cs : List Char} (h : readBare cs = some v) : v.Keyed := by
  unfold readBare at h
  split at h
  · cases h
    trivial
  · split at h
    · cases h
      trivial
    · split at h
      · cases h
        trivial
      · split at h
        · cases h
          trivial
        · obtain ⟨r, -, rfl⟩ := Option.map_eq_some_iff.1 h
          trivial

/-- Whatever is read, its tables have distinct keys: this holds of values, and of what is read of lists
and of tables, with the entries so far. -/
theorem keyed_readWithin (fuel : Nat) :
    (∀ cs v rest, readValue fuel cs = some (v, rest) → v.Keyed) ∧
      (∀ cs vs rest, readItems fuel cs = some (vs, rest) → ∀ v ∈ vs, v.Keyed) ∧
      ∀ es cs es' rest, readPairs fuel es cs = some (es', rest) → Keyed es → Keyed es' := by
  induction fuel with
  | zero =>
    refine ⟨fun cs v rest h => ?_, fun cs vs rest h => ?_, fun es cs es' rest h => ?_⟩
    · rw [readValue] at h
      cases h
    · rw [readItems] at h
      cases h
    · rw [readPairs] at h
      cases h
  | succ fuel ih =>
    obtain ⟨ihValue, ihItems, ihPairs⟩ := ih
    refine ⟨fun cs v rest h => ?_, fun cs vs rest h => ?_, fun es cs es' rest h hes => ?_⟩
    · cases cs with
      | nil =>
        rw [readValue] at h
        cases h
      | cons c cs =>
        rw [readValue] at h
        split at h
        · obtain ⟨p, -, h⟩ := Option.bind_eq_some_iff.1 h
          cases h
          trivial
        · split at h
          · obtain ⟨p, hitems, h⟩ := Option.bind_eq_some_iff.1 h
            cases h
            exact allKeyed_iff.2 (ihItems _ _ _ hitems)
          · split at h
            · obtain ⟨p, hpairs, h⟩ := Option.bind_eq_some_iff.1 h
              cases h
              exact keyed_table_iff.2 (ihPairs _ _ _ _ hpairs keyed_nil)
            · obtain ⟨v', hbare, h⟩ := Option.bind_eq_some_iff.1 h
              cases h
              exact keyed_readBare hbare
    · rw [readItems] at h
      obtain ⟨cs', -, h⟩ := Option.bind_eq_some_iff.1 h
      split at h
      · cases h
        nofun
      · obtain ⟨p, hvalue, h⟩ := Option.bind_eq_some_iff.1 h
        have hfirst := ihValue _ _ _ hvalue
        obtain ⟨cs'', -, h⟩ := Option.bind_eq_some_iff.1 h
        split at h
        · obtain ⟨q, hitems, h⟩ := Option.bind_eq_some_iff.1 h
          cases h
          exact List.forall_mem_cons.2 ⟨hfirst, ihItems _ _ _ hitems⟩
        · cases h
          exact List.forall_mem_singleton.2 hfirst
        · cases h
    · rw [readPairs] at h
      obtain ⟨cs', -, h⟩ := Option.bind_eq_some_iff.1 h
      split at h
      · cases h
        exact hes
      · obtain ⟨⟨path, after⟩, -, h⟩ := Option.bind_eq_some_iff.1 h
        dsimp only at h
        split at h
        · obtain ⟨q, hvalue, h⟩ := Option.bind_eq_some_iff.1 h
          obtain ⟨r, hinsert, h⟩ := Option.bind_eq_some_iff.1 h
          have hnext := keepsKeyed_insertAt _ (ihValue _ _ _ hvalue) _ _ _ _ hinsert hes
          obtain ⟨cs'', -, h⟩ := Option.bind_eq_some_iff.1 h
          split at h
          · exact ihPairs _ _ _ _ h hnext
          · cases h
            exact hnext
          · cases h
        · cases h

/-- The value a statement gives has distinct keys. -/
def Statement.Keyed : Statement → Prop
  | pair _ v => v.Keyed
  | _ => True

theorem keyed_readStatement {cs : List Char} {line : Line} (h : readStatement cs = some line) :
    line.statement.Keyed := by
  unfold readStatement at h
  split at h
  · obtain ⟨p, -, h⟩ := Option.bind_eq_some_iff.1 h
    obtain ⟨q, -, h⟩ := Option.bind_eq_some_iff.1 h
    obtain ⟨r, -, h⟩ := Option.bind_eq_some_iff.1 h
    cases h
    trivial
  · obtain ⟨p, -, h⟩ := Option.bind_eq_some_iff.1 h
    obtain ⟨q, -, h⟩ := Option.bind_eq_some_iff.1 h
    cases h
    trivial
  · obtain ⟨⟨path, after⟩, -, h⟩ := Option.bind_eq_some_iff.1 h
    dsimp only at h
    split at h
    · obtain ⟨q, hvalue, h⟩ := Option.bind_eq_some_iff.1 h
      cases h
      exact (keyed_readWithin _).1 _ _ _ hvalue
    · cases h

theorem keyed_readRest {fuel : Nat} {cs : List Char} {lines : List Line}
    (h : readRest fuel cs = some lines) : ∀ line ∈ lines, line.statement.Keyed := by
  induction fuel generalizing cs lines with
  | zero => cases h
  | succ fuel ih =>
    rw [readRest] at h
    obtain ⟨cs', -, h⟩ := Option.bind_eq_some_iff.1 h
    split at h
    · cases h
      nofun
    · obtain ⟨line, hline, h⟩ := Option.bind_eq_some_iff.1 h
      obtain ⟨rest, -, h⟩ := Option.bind_eq_some_iff.1 h
      obtain ⟨lines', hlines, h⟩ := Option.bind_eq_some_iff.1 h
      cases h
      exact List.forall_mem_cons.2 ⟨keyed_readStatement hline, ih hlines⟩

/-- A statement keeps keys distinct. -/
theorem Statement.Keyed.run {s : Statement} {state state' : List String × Entries} (hs : s.Keyed)
    (h : s.run state = some state') (hes : Toml.Keyed state.2) : Toml.Keyed state'.2 := by
  have hopened : ∀ {path : List String} {f : String → Origin → Entries → Option (Origin × Entries)},
      (∀ last, KeepsKeyed (f last)) → Statement.run.opened state path f = some state' →
      Toml.Keyed state'.2 := by
    intro path f hf h
    obtain ⟨last, -, h⟩ := Option.bind_eq_some_iff.1 h
    obtain ⟨p, hdescend, h⟩ := Option.bind_eq_some_iff.1 h
    cases h
    exact (hf last).descend false _ _ _ _ _ hdescend hes
  cases s with
  | table path => exact hopened keepsKeyed_openTable h
  | item path => exact hopened keepsKeyed_openItem h
  | pair path v =>
    obtain ⟨p, hdescend, h⟩ := Option.bind_eq_some_iff.1 h
    cases h
    exact (keepsKeyed_insertAt path hs).descend false _ _ _ _ _ hdescend hes

/-- In the table of a text every key is given once, and so in all tables inside it. -/
theorem keyed_read {text : List Char} (h : read text = some es) : Keyed es := by
  obtain ⟨lines, hlines, h⟩ := Option.bind_eq_some_iff.1 h
  obtain ⟨state, hstate, h⟩ := Option.bind_eq_some_iff.1 h
  cases h
  have hrun : ∀ (lines : List Line) (s s' : List String × Entries),
      (∀ line ∈ lines, line.statement.Keyed) →
      lines.foldlM (fun s l => l.statement.run s) s = some s' → Keyed s.2 → Keyed s'.2 := by
    intro lines
    induction lines with
    | nil =>
      intro s s' _ h hs
      cases h
      exact hs
    | cons line lines ih =>
      intro s s' hlines h hs
      obtain ⟨hfirst, hrest⟩ := List.forall_mem_cons.1 hlines
      obtain ⟨s₁, hline, h⟩ := Option.bind_eq_some_iff.1 h
      exact ih s₁ s' hrest h (hfirst.run hline hs)
  exact hrun lines _ _ (keyed_readRest hlines) hstate keyed_nil

end AnySpans.Toml
