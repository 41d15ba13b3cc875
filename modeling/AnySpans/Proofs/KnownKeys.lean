import AnySpans.Proofs.Styles
import AnySpans.Settings.Config

/-!
# What becomes of the keys of a settings file

A settings file has five known keys (`knownKeys`), all optional; what else it has is warned about.  The
entries of its table are taken in one after another (`readEntry`), and for distinct keys what this comes
to is a function of the table (`Raw.after`, `readEntries_of_fits`).  So reading fails by a value that
does not fit its key, and by nothing else in a table (`ofEntries_of_fits`, `exists_ofEntries_error`),
and the settings are found by looking up the known keys (`accounts_finish`, `config_congr`).
`settings_accounted` puts this together for texts.

All of it is for integers of 64 bits with a sign (`Signed`); wider ones are refused wherever they stand.
-/

namespace AnySpans.Settings

open AnySpans.Toml AnySpans.Decoding AnySpans.Text

variable {key : String} {v : Value} {es es' : Entries} {r : Raw} {s : Style} {n : Nat}

/-! ### Integers -/

mutual

/-- The integers in a value. -/
def integers : Value → List Int
  | .integer n => [n]
  | .list _ vs => itemIntegers vs
  | .table _ es => entryIntegers es
  | _ => []

/-- The integers in the items of a list. -/
def itemIntegers : List Value → List Int
  | [] => []
  | v :: vs => integers v ++ itemIntegers vs

/-- The integers in the values of a table. -/
def entryIntegers : List (String × Value) → List Int
  | [] => []
  | (_, v) :: es => integers v ++ entryIntegers es

end

/-- All integers have at most 64 bits, a sign bit among them. -/
def Signed (ns : List Int) : Prop := ∀ n ∈ ns, -Int.pow 2 63 ≤ n ∧ n < Int.pow 2 63

theorem signed_append {ms ns : List Int} : Signed (ms ++ ns) ↔ Signed ms ∧ Signed ns :=
  List.forall_mem_append

theorem signed_entryIntegers_iff : Signed (entryIntegers es) ↔ ∀ e ∈ es, Signed (integers e.2) := by
  induction es with
  | nil => exact iff_of_true nofun nofun
  | cons e es ih => rw [entryIntegers, signed_append, ih, List.forall_mem_cons]

mutual

theorem checkIntegers_of_signed (stored : Bool) : ∀ v, Signed (integers v) →
    checkIntegers stored v = .ok ()
  | .integer n, h => by
    obtain ⟨hlow, hhigh⟩ := h n List.mem_cons_self
    have hwide : -Int.pow 2 63 ≤ n ∧ n < Int.pow 2 64 := ⟨hlow, Int.lt_trans hhigh (by decide)⟩
    have hsign : ¬ Int.pow 2 63 ≤ n := Int.not_le.2 hhigh
    rw [checkIntegers, if_pos hwide, decide_eq_false hsign, Bool.and_false, if_neg Bool.false_ne_true]
  | .list _ vs, h => by
    rw [checkIntegers]
    exact checkAll_of_signed stored vs h
  | .table _ es, h => by
    rw [checkIntegers]
    exact checkEntries_of_signed stored es h
  | .string _, _ | .real _, _ | .boolean _, _ | .moment _, _ => by rw [checkIntegers] <;> nofun

theorem checkAll_of_signed (stored : Bool) : ∀ vs, Signed (itemIntegers vs) →
    checkAll stored vs = .ok ()
  | [], _ => rfl
  | v :: vs, h => by
    obtain ⟨hv, hvs⟩ := signed_append.1 h
    rw [checkAll, checkIntegers_of_signed stored v hv]
    exact checkAll_of_signed stored vs hvs

theorem checkEntries_of_signed (stored : Bool) : ∀ es, Signed (entryIntegers es) →
    checkEntries stored es = .ok ()
  | [], _ => rfl
  | (_, v) :: es, h => by
    obtain ⟨hv, hes⟩ := signed_append.1 h
    rw [checkEntries, checkIntegers_of_signed stored v hv]
    exact checkEntries_of_signed stored es hes

end

/-! ### Values that fit -/

/-- The keys of counts. -/
def countKeys : List String := ["debounce-ms", "max-concurrent-queries", "query-timeout-ms"]

/-- The keys that are settings. -/
def knownKeys : List String := countKeys ++ ["surface-error-anys", "any-style"]

/-- A value can be given to a key: a count has no sign, and only one key is for a boolean.  Any value
will do for the style, and for a key that is no setting. -/
def Fits (key : String) (v : Value) : Prop :=
  (key ∈ countKeys → ∃ n : Nat, v = .integer n) ∧ (key = "surface-error-anys" → ∃ b, v = .boolean b)

/-- The count a value gives. -/
def countOf : Value → Option Nat
  | .integer n => some n.toNat
  | _ => none

/-- The boolean a value gives. -/
def booleanOf : Value → Option Bool
  | .boolean b => some b
  | _ => none

theorem exists_misfit {α : Type} (v : Value) (expected : String) :
    ∃ m, (misfit v expected : Except Mismatch α) = .error m := by
  unfold misfit
  split <;> exact ⟨_, rfl⟩

theorem readCount_of_lt (expected : String) (hn : (n : Int) < Int.pow 2 63) :
    readCount expected (.integer n) = .ok n := by
  rw [readCount, if_pos ⟨Int.natCast_nonneg n, Int.lt_trans hn (by decide)⟩, Int.toNat_natCast]

theorem exists_readCount_error (expected : String) (h : ¬ ∃ n : Nat, v = .integer n) :
    ∃ m, readCount expected v = .error m := by
  unfold readCount
  split
  · rename_i n
    have hn : n < 0 := Int.not_le.1 fun hle => h ⟨n.toNat, by rw [Int.toNat_of_nonneg hle]⟩
    rw [if_neg fun hle => Int.not_le.2 hn hle.1]
    split
    · exact ⟨_, rfl⟩
    · exact exists_misfit _ _
  · exact exists_misfit _ _

theorem exists_readBoolean_error (h : ¬ ∃ b, v = .boolean b) : ∃ m, readBoolean v = .error m := by
  unfold readBoolean
  split
  · rename_i b
    exact absurd ⟨b, rfl⟩ h
  · exact exists_misfit _ _

/-! ### One key after another -/

/-- The values of the known keys after the entries of a table. -/
def Raw.after (r : Raw) (es : Entries) : Raw where
  debounce := ((lookup "debounce-ms" es).bind countOf).or r.debounce
  surfaceErrors := ((lookup "surface-error-anys" es).bind booleanOf).or r.surfaceErrors
  maxQueries := ((lookup "max-concurrent-queries" es).bind countOf).or r.maxQueries
  queryTimeout := ((lookup "query-timeout-ms" es).bind countOf).or r.queryTimeout
  style := ((lookup "any-style" es).bind some).or r.style
  unknown := r.unknown ++ es.filter fun e => e.1 ∉ knownKeys

theorem Raw.after_nil (r : Raw) : r.after [] = r := by
  simp [after, lookup_nil]

theorem Raw.after_cons (hkey : key ∉ keys es) :
    (r.after [(key, v)]).after es = r.after ((key, v) :: es) := by
  simp only [after, lookup_bind_or hkey, List.append_assoc, ← List.filter_append, List.cons_append,
    List.nil_append]

/-- A value that fits is taken in under its key. -/
theorem readEntry_of_fits (hv : Signed (integers v)) (hfits : Fits key v) :
    readEntry r key v = .ok (r.after [(key, v)]) := by
  by_cases hcount : key ∈ countKeys
  · obtain ⟨n, rfl⟩ := hfits.1 hcount
    have hread : ∀ expected, readCount expected (.integer n) = .ok n := fun expected =>
      readCount_of_lt expected (hv _ List.mem_cons_self).2
    have hn : countOf (.integer n) = some n := rfl
    simp only [countKeys, List.mem_cons, List.not_mem_nil, or_false] at hcount
    obtain rfl | rfl | rfl := hcount <;> rw [readEntry, hread] <;>
      exact congrArg Except.ok (by simp [Raw.after, lookup_cons, lookup_nil, hn, knownKeys, countKeys])
  by_cases hboolean : key = "surface-error-anys"
  · obtain ⟨b, rfl⟩ := hfits.2 hboolean
    subst hboolean
    rw [readEntry, readBoolean]
    exact congrArg Except.ok (by simp [Raw.after, lookup_cons, lookup_nil, booleanOf, knownKeys, countKeys])
  by_cases hstyle : key = "any-style"
  · subst hstyle
    rw [readEntry, checkIntegers_of_signed true v hv]
    exact congrArg Except.ok (by simp [Raw.after, lookup_cons, lookup_nil, knownKeys, countKeys])
  · have hne : ∀ k ∈ knownKeys, key ≠ k := by
      simp only [countKeys, List.mem_cons, List.not_mem_nil, or_false, not_or] at hcount
      simp [knownKeys, countKeys, hcount, hboolean, hstyle]
    have hunknown : key ∉ knownKeys := fun hmem => hne key hmem rfl
    simp only [knownKeys, countKeys, List.cons_append, List.nil_append, List.forall_mem_cons] at hne
    obtain ⟨h₁, h₂, h₃, h₄, h₅, -⟩ := hne
    have hafter : r.after [(key, v)] = { r with unknown := r.unknown ++ [(key, v)] } := by
      simp [Raw.after, lookup_cons, lookup_nil, h₁, h₂, h₃, h₄, h₅, hunknown]
    unfold readEntry
    split
    case h_6 =>
      rw [checkIntegers_of_signed false v hv, hafter]
      rfl
    all_goals contradiction

theorem exists_readEntry_error (h : ¬ Fits key v) : ∃ m, readEntry r key v = .error m := by
  rw [Fits, Classical.not_and_iff_not_or_not, Classical.not_imp, Classical.not_imp] at h
  obtain ⟨hkey, hv⟩ | ⟨rfl, hv⟩ := h
  · have hread : ∀ expected, ∃ m, readCount expected v = .error m := fun expected =>
      exists_readCount_error expected hv
    simp only [countKeys, List.mem_cons, List.not_mem_nil, or_false] at hkey
    obtain rfl | rfl | rfl := hkey
    · exact (hread "u64").imp fun m hm => by rw [readEntry, hm]; rfl
    · exact (hread "usize").imp fun m hm => by rw [readEntry, hm]; rfl
    · exact (hread "u64").imp fun m hm => by rw [readEntry, hm]; rfl
  · exact (exists_readBoolean_error hv).imp fun m hm => by rw [readEntry, hm]; rfl

/-- Entries that fit are taken in one after another. -/
theorem readEntries_of_fits (hnodup : (keys es).Nodup) (hsigned : Signed (entryIntegers es))
    (hfits : ∀ e ∈ es, Fits e.1 e.2) : readEntries r es = .ok (r.after es) := by
  induction es generalizing r with
  | nil => rw [readEntries, Raw.after_nil]
  | cons e es ih =>
    obtain ⟨key, v⟩ := e
    obtain ⟨hkey, hrest⟩ := List.nodup_cons.1 hnodup
    obtain ⟨hv, hlater⟩ := signed_append.1 hsigned
    obtain ⟨hfit, hfitLater⟩ := List.forall_mem_cons.1 hfits
    rw [readEntries, readEntry_of_fits hv hfit, ← Raw.after_cons hkey]
    exact ih hrest hlater hfitLater

/-- An entry that does not fit keeps them from being taken in, the first of these by its error. -/
theorem exists_readEntries_error (hsigned : Signed (entryIntegers es))
    (h : ∃ e ∈ es, ¬ Fits e.1 e.2) : ∃ m, readEntries r es = .error m := by
  induction es generalizing r with
  | nil =>
    obtain ⟨e, he, -⟩ := h
    cases he
  | cons e es ih =>
    obtain ⟨key, v⟩ := e
    by_cases hfit : Fits key v
    · obtain ⟨hv, hlater⟩ := signed_append.1 hsigned
      obtain ⟨e, he, hmisfit⟩ := h
      have hrest : e ∈ es := by
        obtain rfl | he := List.mem_cons.1 he
        · exact absurd hfit hmisfit
        · exact he
      rw [readEntries, readEntry_of_fits hv hfit]
      exact ih hlater ⟨e, hrest, hmisfit⟩
    · obtain ⟨m, hm⟩ := exists_readEntry_error (r := r) hfit
      rw [readEntries, hm]
      exact ⟨_, rfl⟩

/-! ### A whole table -/

theorem signed_sortedEntries (h : Signed (entryIntegers es)) :
    Signed (entryIntegers (sortedEntries es)) :=
  signed_entryIntegers_iff.2 fun e he =>
    signed_entryIntegers_iff.1 h e ((sortedEntries_perm es).mem_iff.1 he)

theorem fits_iff_lookup (hnodup : (keys es).Nodup) :
    (∀ e ∈ es, Fits e.1 e.2) ↔ ∀ key v, lookup key es = some v → Fits key v :=
  ⟨fun h key v hv => h (key, v) (mem_of_lookup hv),
    fun h e he => h e.1 e.2 ((lookup_eq_some_iff hnodup).2 he)⟩

/-- What a table gives for the settings, and what else it has, in the order of the keys. -/
def Raw.ofEntries (es : Entries) : Raw := Raw.after {} (sortedEntries es)

theorem ofEntries_of_fits (hes : Keyed es) (hsigned : Signed (entryIntegers es))
    (hfits : ∀ e ∈ es, Fits e.1 e.2) : Config.ofEntries es = .ok (finish (Raw.ofEntries es)) := by
  have hread : readEntries {} (sortedEntries es) = .ok (Raw.ofEntries es) :=
    readEntries_of_fits (nodup_keys_sortedEntries hes.nodup) (signed_sortedEntries hsigned)
      fun e he => hfits e ((sortedEntries_perm es).mem_iff.1 he)
  have hunknown : Signed (entryIntegers (Raw.ofEntries es).unknown) :=
    signed_entryIntegers_iff.2 fun e he =>
      signed_entryIntegers_iff.1 (signed_sortedEntries hsigned) e (List.mem_filter.1 he).1
  rw [Config.ofEntries, hread]
  show ((checkEntries true (Raw.ofEntries es).unknown).mapError _ >>= fun _ => _) = _
  rw [checkEntries_of_signed true _ hunknown]
  rfl

theorem exists_ofEntries_error (hsigned : Signed (entryIntegers es))
    (h : ∃ e ∈ es, ¬ Fits e.1 e.2) : ∃ m, Config.ofEntries es = .error m := by
  obtain ⟨e, he, hmisfit⟩ := h
  obtain ⟨m, hm⟩ := exists_readEntries_error (r := {}) (signed_sortedEntries hsigned)
    ⟨e, (sortedEntries_perm es).mem_iff.2 he, hmisfit⟩
  exact ⟨m, by rw [Config.ofEntries, hm]; rfl⟩

theorem pairwise_sortedEntries (hnodup : (keys es).Nodup) :
    (keys (sortedEntries es)).Pairwise (· < ·) := by
  have hle : (sortedEntries es).Pairwise fun a b => a.1 ≤ b.1 := by
    refine (List.pairwise_mergeSort (fun a b c hab hbc => ?_) (fun a b => ?_) es).imp of_decide_eq_true
    · exact decide_eq_true (String.le_trans (of_decide_eq_true hab) (of_decide_eq_true hbc))
    · rw [Bool.or_eq_true, decide_eq_true_iff, decide_eq_true_iff]
      exact String.le_total a.1 b.1
  have hne := List.pairwise_map.1 (nodup_keys_sortedEntries hnodup)
  exact List.pairwise_map.2 ((hle.and hne).imp fun h => Decidable.byContradiction fun hlt =>
    h.2 (String.le_antisymm h.1 (String.not_lt.1 hlt)))

/-! ### Settings -/

/-- The style in force for what is given for it, and the warning about it: without a value it is the
built-in one, and a value that describes no style is refused with a warning. -/
inductive InForce (given : Option Value) : Style → List Warning → Prop
  | builtIn (h : given = none) : InForce given .builtIn []
  | accepted {v : Value} {s : Style} (h : given = some v) (hs : Describes v s) : InForce given s []
  | refused {v : Value} {fault : StyleFault} (h : given = some v) (hnone : ∀ s, ¬ Describes v s)
    (hfault : Style.read v = .error fault) : InForce given .builtIn [.invalidStyle fault]

/-- Settings account for a table: they have what it gives for them, and the built-in settings for the
rest.  They warn of each key that is no setting, in ascending order, and then of a style that is
refused. -/
structure Accounts (es : Entries) (l : Loaded) : Prop where
  debounce : l.config.debounce =
    ((lookup "debounce-ms" es).bind countOf).getD Config.builtIn.debounce
  surfaceErrors : l.config.surfaceErrors =
    ((lookup "surface-error-anys" es).bind booleanOf).getD Config.builtIn.surfaceErrors
  maxQueries : l.config.maxQueries =
    max (((lookup "max-concurrent-queries" es).bind countOf).getD Config.builtIn.maxQueries) 1
  queryTimeout : l.config.queryTimeout =
    ((lookup "query-timeout-ms" es).bind countOf).getD Config.builtIn.queryTimeout
  warnings : ∃ (names : List String) (refused : List Warning),
    l.warnings = names.map .unknownKey ++ refused ∧ names.Pairwise (· < ·) ∧
    (∀ key, key ∈ names ↔ key ∈ keys es ∧ key ∉ knownKeys) ∧
    InForce (lookup "any-style" es) l.config.style refused

theorem mem_keys_unknown_iff :
    key ∈ keys (Raw.ofEntries es).unknown ↔ key ∈ keys es ∧ key ∉ knownKeys := by
  have hunknown : (Raw.ofEntries es).unknown = (sortedEntries es).filter fun e => e.1 ∉ knownKeys := rfl
  rw [hunknown, keys, keys, ← ((sortedEntries_perm es).map Prod.fst).mem_iff, List.mem_map, List.mem_map]
  constructor
  · rintro ⟨e, he, rfl⟩
    obtain ⟨hmem, hknown⟩ := List.mem_filter.1 he
    exact ⟨⟨e, hmem, rfl⟩, of_decide_eq_true hknown⟩
  · rintro ⟨⟨e, he, rfl⟩, hknown⟩
    exact ⟨e, List.mem_filter.2 ⟨he, decide_eq_true hknown⟩, rfl⟩

section InForce

variable {given : Option Value} {refused refused' : List Warning}

theorem InForce.usable (hgiven : ∀ v, given = some v → v.Keyed) (h : InForce given s refused) :
    s.Usable := by
  cases h with
  | builtIn => exact usable_builtIn
  | accepted h hs => exact hs.usable (hgiven _ h)
  | refused => exact usable_builtIn

/-- The style that is used for a value is in force, with the warning about it. -/
theorem inForce_read (hgiven : ∀ v, given = some v → v.Keyed) :
    ∃ s refused, InForce given s refused ∧ (∀ r : Raw, r.style = given → (finish r).config.style = s ∧
      (finish r).warnings = r.unknown.map (fun e => .unknownKey e.1) ++ refused) := by
  cases hstyle : given with
  | none => exact ⟨_, _, .builtIn rfl, fun r hr => by simp [finish, hr, Config.builtIn]⟩
  | some v =>
    cases hread : Style.read v with
    | ok s =>
      exact ⟨_, _, .accepted rfl ((Style.read_eq_ok_iff (hgiven v hstyle)).1 hread),
        fun r hr => by simp [finish, hr, hread]⟩
    | error fault =>
      have hnone : ∀ s, ¬ Describes v s := fun s hs => by
        rw [(Style.read_eq_ok_iff (hgiven v hstyle)).2 hs] at hread
        cases hread
      exact ⟨_, _, .refused rfl hnone hread, fun r hr => by simp [finish, hr, hread]⟩

end InForce

/-- The settings of a table account for it. -/
theorem accounts_finish (hes : Keyed es) : Accounts es (finish (Raw.ofEntries es)) where
  debounce := by
    simp [finish, Raw.ofEntries, Raw.after, lookup_sortedEntries hes.nodup]
  surfaceErrors := by
    simp [finish, Raw.ofEntries, Raw.after, lookup_sortedEntries hes.nodup]
  maxQueries := by
    simp [finish, Raw.ofEntries, Raw.after, lookup_sortedEntries hes.nodup]
  queryTimeout := by
    simp [finish, Raw.ofEntries, Raw.after, lookup_sortedEntries hes.nodup]
  warnings := by
    have hstyle : (Raw.ofEntries es).style = lookup "any-style" es := by
      simp [Raw.ofEntries, Raw.after, lookup_sortedEntries hes.nodup]
    have hkeyed : ∀ v, lookup "any-style" es = some v → v.Keyed := fun v hv => hes.lookup hv
    obtain ⟨s, refused, hforce, hfinish⟩ := inForce_read hkeyed
    obtain ⟨hs, hwarnings⟩ := hfinish _ hstyle
    refine ⟨keys (Raw.ofEntries es).unknown, refused, ?_, ?_, fun key => ?_, hs ▸ hforce⟩
    · rw [hwarnings, keys, List.map_map]
      rfl
    · exact (pairwise_sortedEntries hes.nodup).sublist (List.filter_sublist.map Prod.fst)
    · exact mem_keys_unknown_iff

/-- The settings depend on the known keys only. -/
theorem config_congr (hes : Keyed es) (hes' : Keyed es')
    (halike : ∀ key ∈ knownKeys, lookup key es' = lookup key es) :
    (finish (Raw.ofEntries es')).config = (finish (Raw.ofEntries es)).config := by
  simp only [knownKeys, countKeys, List.cons_append, List.nil_append, List.forall_mem_cons] at halike
  obtain ⟨h₁, h₂, h₃, h₄, h₅, -⟩ := halike
  simp only [finish, Raw.ofEntries, Raw.after, lookup_sortedEntries hes.nodup,
    lookup_sortedEntries hes'.nodup, h₁, h₂, h₃, h₄, h₅]

/-! ### Settings files -/

theorem fits_of_alike (halike : ∀ key ∈ knownKeys, lookup key es' = lookup key es)
    (hfits : ∀ key v, lookup key es = some v → Fits key v) (hv : lookup key es' = some v) :
    Fits key v := by
  by_cases hknown : key ∈ knownKeys
  · exact hfits key v (halike key hknown ▸ hv)
  · exact ⟨fun h => absurd (List.mem_append_left _ h) hknown, fun h => absurd (h ▸ by decide) hknown⟩

theorem exists_parse_error_of_none {text : List Char} (hread : Toml.read text = none) :
    ∃ e, Config.parse text = .error e := by
  rw [Config.parse, hread]
  exact ⟨_, rfl⟩

theorem parse_of_fits {text : List Char} (hread : Toml.read text = some es)
    (hsigned : Signed (entryIntegers es)) (hfits : ∀ key v, lookup key es = some v → Fits key v) :
    Config.parse text = .ok (finish (Raw.ofEntries es)) := by
  have hes := keyed_read hread
  rw [Config.parse, hread]
  dsimp only
  rw [ofEntries_of_fits hes hsigned ((fits_iff_lookup hes.nodup).2 hfits)]

theorem exists_parse_error {text : List Char} (hread : Toml.read text = some es)
    (hsigned : Signed (entryIntegers es)) (hv : lookup key es = some v) (hmisfit : ¬ Fits key v) :
    ∃ e, Config.parse text = .error e := by
  obtain ⟨m, hm⟩ := exists_ofEntries_error hsigned ⟨(key, v), mem_of_lookup hv, hmisfit⟩
  rw [Config.parse, hread]
  dsimp only
  rw [hm]
  exact ⟨_, rfl⟩

/-- Reading settings fails on a text that is no table, or in which a value does not fit, and else gives
settings that can be used and account for the table.  The settings stay as they are if other keys are
added, changed or left out. -/
theorem settings_accounted {text : List Char}
    (hsigned : ∀ es, Toml.read text = some es → Signed (entryIntegers es)) :
    ((∃ e, Config.parse text = .error e) ↔ Toml.read text = none ∨
      ∃ es key v, Toml.read text = some es ∧ lookup key es = some v ∧ ¬ Fits key v) ∧
    ∀ l, Config.parse text = .ok l → ∃ es, Toml.read text = some es ∧ Accounts es l ∧
      l.config.style.Usable ∧ 1 ≤ l.config.maxQueries ∧
      ∀ text' es', Toml.read text' = some es' → Signed (entryIntegers es') →
        (∀ key ∈ knownKeys, lookup key es' = lookup key es) →
        ∃ l', Config.parse text' = .ok l' ∧ l'.config = l.config := by
  cases hread : Toml.read text with
  | none =>
    obtain ⟨e, he⟩ := exists_parse_error_of_none hread
    exact ⟨iff_of_true ⟨e, he⟩ (.inl rfl), fun l hl => nomatch hl.symm.trans he⟩
  | some es =>
    have hes := keyed_read hread
    by_cases hfits : ∀ key v, lookup key es = some v → Fits key v
    · have hok := parse_of_fits hread (hsigned es hread) hfits
      have haccounts := accounts_finish hes
      refine ⟨iff_of_false ?_ ?_, fun l hl => ?_⟩
      · rintro ⟨e, he⟩
        rw [hok] at he
        cases he
      · rintro (hnone | ⟨es', key, v, hes', hv, hmisfit⟩)
        · cases hnone
        · cases hes'
          exact hmisfit (hfits key v hv)
      · cases hok.symm.trans hl
        obtain ⟨names, refused, -, -, -, hforce⟩ := haccounts.warnings
        refine ⟨es, rfl, haccounts, hforce.usable fun v hv => hes.lookup hv, ?_, ?_⟩
        · rw [haccounts.maxQueries]
          exact Nat.le_max_right _ 1
        · intro text' es' hread' hsigned' halike
          exact ⟨_, parse_of_fits hread' hsigned' fun key v => fits_of_alike halike hfits,
            config_congr hes (keyed_read hread') halike⟩
    · obtain ⟨key, h⟩ := Classical.not_forall.1 hfits
      obtain ⟨v, h⟩ := Classical.not_forall.1 h
      obtain ⟨hv, hmisfit⟩ := Classical.not_imp.1 h
      obtain ⟨e, he⟩ := exists_parse_error hread (hsigned es hread) hv hmisfit
      exact ⟨iff_of_true ⟨e, he⟩ (.inr ⟨es, key, v, rfl, hv, hmisfit⟩),
        fun l hl => nomatch hl.symm.trans he⟩

/-- A settings file with an unknown key, and a text where a style should be. -/
def heedless : List Char := "x=1\nsurface-error-anys=true\nany-style='red'".toList

theorem read_heedless : ((Toml.read heedless).map fun es => (keys es, entryIntegers es,
      (lookup "surface-error-anys" es).bind booleanOf, (lookup "any-style" es).bind textOf)) =
    some (["x", "surface-error-anys", "any-style"], [1], some true, some "red") := by
  decide +kernel

/-- The key of `heedless` that is no setting and its style are warned about, and its other setting is
taken. -/
theorem settings_accounted_heedless : ∃ l fault, Config.parse heedless = .ok l ∧
    l.config.surfaceErrors = true ∧ l.config.style = .builtIn ∧ l.config.style.Usable ∧
    1 ≤ l.config.maxQueries ∧ ∃ names : List String,
      l.warnings = names.map .unknownKey ++ [.invalidStyle fault] ∧ ∀ key, key ∈ names ↔ key = "x" := by
  obtain ⟨es, hes, h⟩ := Option.map_eq_some_iff.1 read_heedless
  simp only [Prod.mk.injEq] at h
  obtain ⟨hkeys, hintegers, hboolean, htext⟩ := h
  have hsigned : ∀ es', Toml.read heedless = some es' → Signed (entryIntegers es') := fun es' hes' => by
    cases hes.symm.trans hes'
    rw [hintegers]
    exact List.forall_mem_singleton.2 (by decide)
  obtain ⟨hfail, haccounted⟩ := settings_accounted hsigned
  cases hparse : Config.parse heedless with
  | error e =>
    obtain hnone | ⟨_, key, v, hes', hv, hmisfit⟩ := hfail.1 ⟨e, hparse⟩
    · cases hes.symm.trans hnone
    · cases hes.symm.trans hes'
      have hkey : key ∈ keys es := List.mem_map_of_mem (f := Prod.fst) (mem_of_lookup hv)
      have hcounts : ∀ key ∈ keys es, key ∉ countKeys := hkeys ▸ by decide
      refine absurd ⟨fun hcount => absurd hcount (hcounts key hkey), ?_⟩ hmisfit
      rintro rfl
      rw [hv, Option.bind_some] at hboolean
      cases v with
      | boolean b => exact ⟨b, rfl⟩
      | _ => cases hboolean
  | ok l =>
    obtain ⟨_, hes', haccounts, husable, hmax, -⟩ := haccounted l hparse
    cases hes.symm.trans hes'
    obtain ⟨names, refused, hwarnings, -, hnames, hforce⟩ := haccounts.warnings
    have hsurface : l.config.surfaceErrors = true := by rw [haccounts.surfaceErrors, hboolean]; rfl
    generalize hs : l.config.style = s at hforce
    cases hforce with
    | builtIn h =>
      rw [h] at htext
      cases htext
    | accepted h hdescribes =>
      obtain ⟨_, _, rfl, -⟩ := hdescribes
      rw [h] at htext
      cases htext
    | refused =>
      refine ⟨l, _, rfl, hsurface, hs, husable, hmax, names, hwarnings, fun key => ?_⟩
      rw [hnames, hkeys]
      constructor
      · rintro ⟨hkey, hunknown⟩
        obtain rfl | hkey := List.mem_cons.1 hkey
        · rfl
        · have hknown : ∀ key ∈ ["surface-error-anys", "any-style"], key ∈ knownKeys := by decide
          exact absurd (hknown key hkey) hunknown
      · rintro rfl
        decide

end AnySpans.Settings
