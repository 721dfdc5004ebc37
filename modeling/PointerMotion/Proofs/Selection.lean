/-
Which strategy a tracker gets: the one that its request denotes, or the default
of its settings, which always have one when they come from a file.
-/
import Mathlib.Data.List.TakeWhile
import PointerMotion.Proofs.Pause

namespace PointerMotion

namespace Text

section Strip

variable {p : Char → Bool} {before core after text : List Char}

/-- What is stripped off either end is of the class. -/
theorem exists_append_stripWhere (p : Char → Bool) (text : List Char) :
    ∃ before after, text = before ++ stripWhere p text ++ after ∧
      ∀ c ∈ before ++ after, p c := by
  let rest := text.dropWhile p
  have hrest : rest = stripWhere p text ++
      (rest.reverse.takeWhile p).reverse := by
    rw [stripWhere, ← List.reverse_append, List.takeWhile_append_dropWhile,
      List.reverse_reverse]
  refine ⟨text.takeWhile p, (rest.reverse.takeWhile p).reverse, ?_, ?_⟩
  · rw [List.append_assoc, ← hrest, List.takeWhile_append_dropWhile]
  · intro c hc
    rcases List.mem_append.mp hc with hfront | hback
    · exact List.mem_takeWhile_imp hfront
    · exact List.mem_takeWhile_imp (List.mem_reverse.mp hback)

theorem dropWhile_of_forall_not (h : ∀ c ∈ text, ¬ p c) :
    text.dropWhile p = text :=
  List.dropWhile_eq_self_iff.mpr fun hpos => h _ (List.getElem_mem hpos)

/-- Text without characters of the class is what is left between such
characters. -/
theorem stripWhere_append_append (h : ∀ c ∈ before ++ after, p c)
    (hcore : ∀ c ∈ core, ¬ p c) :
    stripWhere p (before ++ core ++ after) = core := by
  have hbefore : ∀ c ∈ before, p c :=
    fun c hc => h c (List.mem_append_left _ hc)
  have hafter : ∀ c ∈ after, p c := fun c hc => h c (List.mem_append_right _ hc)
  have hafter' : ∀ c ∈ after.reverse, p c :=
    fun c hc => hafter c (List.mem_reverse.mp hc)
  have hcore' : ∀ c ∈ core.reverse, ¬ p c :=
    fun c hc => hcore c (List.mem_reverse.mp hc)
  have hfront : ((before ++ core ++ after).dropWhile p).reverse.dropWhile p =
      core.reverse := by
    rw [List.append_assoc, List.dropWhile_append_of_pos hbefore]
    cases core with
    | nil =>
        rw [List.nil_append, List.dropWhile_eq_nil_iff.mpr hafter]
        rfl
    | cons c rest =>
        rw [List.cons_append,
          List.dropWhile_cons_of_neg (hcore c List.mem_cons_self),
          ← List.cons_append, List.reverse_append,
          List.dropWhile_append_of_pos hafter', dropWhile_of_forall_not hcore']
  rw [stripWhere, hfront, List.reverse_reverse]

end Strip

/-- A blank is its own capital. -/
theorem capitals_of_isBlank {c : Char} (h : isBlank c) : capitals c = [c] := by
  have hlookup : asciiCapitals.lookup c = none := by
    rw [List.lookup_eq_none_iff]
    intro entry hentry
    have hletter : isBlank entry.1 = false := by
      revert entry
      decide
    rw [bne_iff_ne]
    rintro rfl
    rw [h] at hletter
    cases hletter
  have hlower : ¬ ('a'.val ≤ c.val ∧ c.val ≤ 'z'.val) := by
    rintro ⟨hlow, hhigh⟩
    have hletter : 97 ≤ c.toNat ∧ c.toNat ≤ 122 := ⟨hlow, hhigh⟩
    simp only [isBlank, Bool.or_eq_true, Bool.and_eq_true, decide_eq_true_eq,
      beq_iff_eq] at h
    omega
  have hupper : c.toUpper = c := dif_neg hlower
  rw [capitals, hlookup, hupper]

/-- Blanks stay in capitals, so that a text without blanks in capitals has
none. -/
theorem mem_capitalize_of_isBlank {text : List Char} {c : Char}
    (hmem : c ∈ text) (h : isBlank c) : c ∈ capitalize text := by
  rw [capitalize, List.mem_flatMap]
  exact ⟨c, hmem, by
    rw [capitals_of_isBlank h]; exact List.mem_singleton_self c⟩

end Text

namespace Selector

theorem ofExactName?_name (s : Selector) : ofExactName? s.name = some s := by
  rcases s with _ | id
  · rfl
  · cases id <;> rfl

theorem ofExactName?_eq_some_iff {name : String} {s : Selector} :
    ofExactName? name = some s ↔ s.name = name := by
  constructor
  · intro h
    rw [ofExactName?] at h
    have hname := List.find?_some h
    exact eq_of_beq hname
  · rintro rfl
    exact ofExactName?_name s

theorem ofCode?_eq_some_iff {n : Int} {s : Selector} :
    ofCode? n = some s ↔ s.code = n := by
  constructor
  · intro h
    rw [ofCode?] at h
    have hcode := List.find?_some h
    exact eq_of_beq hcode
  · rintro rfl
    exact ofCode?_code s

theorem not_isBlank_of_mem_name (s : Selector) :
    ∀ c ∈ s.name.toList, ¬ Text.isBlank c := by
  have hname : s.name.toList.all fun c => !Text.isBlank c := by
    rcases s with _ | id
    · rfl
    · cases id <;> rfl
  intro c hc hblank
  simpa [hblank] using List.all_eq_true.mp hname c hc

/-- A text names the selector whose name stands in it, in capitals or not,
between blanks. -/
theorem ofName?_eq_some_iff {text : String} {s : Selector} :
    ofName? text = some s ↔ ∃ before core after,
      text = String.ofList (before ++ core ++ after) ∧
      (∀ c ∈ before ++ after, Text.isBlank c) ∧
      Text.capitalize core = s.name.toList := by
  rw [ofName?, ofExactName?_eq_some_iff]
  constructor
  · intro h
    obtain ⟨before, after, hsplit, hblank⟩ :=
      Text.exists_append_stripWhere Text.isBlank text.toList
    refine ⟨before, Text.stripWhere Text.isBlank text.toList, after,
      ?_, hblank, ?_⟩
    · rw [← hsplit, String.ofList_toList]
    · rw [h, String.toList_ofList]
  · rintro ⟨before, core, after, rfl, hblank, hname⟩
    have hcore : ∀ c ∈ core, ¬ Text.isBlank c := fun c hc hc' =>
      s.not_isBlank_of_mem_name c
        (hname ▸ Text.mem_capitalize_of_isBlank hc hc') hc'
    rw [String.toList_ofList, Text.stripWhere_append_append hblank hcore, hname,
      String.ofList_toList]

end Selector

namespace StrategyRequest

/-- What a request denotes: a selector by itself, by its name or by its
number. -/
inductive Denotes : StrategyRequest → Selector → Prop
  | selector (s : Selector) : Denotes (.selector s) s
  | name (s : Selector) {before core after : List Char}
    (hblank : ∀ c ∈ before ++ after, Text.isBlank c)
    (hname : Text.capitalize core = s.name.toList) :
      Denotes (.name (String.ofList (before ++ core ++ after))) s
  | number (s : Selector) : Denotes (.number s.code) s

variable {request : StrategyRequest}

theorem selector?_eq_some_iff {s : Selector} :
    request.selector? = some s ↔ request.Denotes s := by
  constructor
  · intro h
    cases request with
    | selector s' =>
        obtain rfl := Option.some.inj h
        exact .selector s'
    | name text =>
        obtain ⟨before, core, after, rfl, hblank, hname⟩ :=
          Selector.ofName?_eq_some_iff.mp h
        exact .name s hblank hname
    | number n =>
        obtain rfl := Selector.ofCode?_eq_some_iff.mp h
        exact .number s
    | unsupported kind => cases h
  · intro h
    cases h with
    | selector => rfl
    | name _ hblank hname =>
        exact Selector.ofName?_eq_some_iff.mpr ⟨_, _, _, rfl, hblank, hname⟩
    | number => exact Selector.ofCode?_code s

theorem selector?_eq_none_iff :
    request.selector? = none ↔ ∀ s, ¬ request.Denotes s := by
  simp only [← selector?_eq_some_iff, Option.eq_none_iff_forall_ne_some, ne_eq]

/-- A request denotes one selector at most. -/
theorem Denotes.unique {s s' : Selector} (h : request.Denotes s)
    (h' : request.Denotes s') :
    s = s' :=
  Option.some.inj
    ((selector?_eq_some_iff.mpr h).symm.trans (selector?_eq_some_iff.mpr h'))

/-- Over a default a request chooses the strategy that it denotes, or the
default if none. -/
inductive Chooses (request : StrategyRequest) (fallback : StrategyId) :
    StrategyId → Prop
  | own {id : StrategyId} (h : request.Denotes (.concrete id)) :
  Chooses request fallback id
  | fallback (h : ∀ id, ¬ request.Denotes (.concrete id)) :
    Chooses request fallback fallback

/-- A request chooses one strategy. -/
theorem Chooses.unique {fallback id id' : StrategyId}
    (h : request.Chooses fallback id) (h' : request.Chooses fallback id') :
    id = id' := by
  cases h with
  | own h =>
      cases h' with
      | own h' => exact Selector.concrete.inj (h.unique h')
      | fallback h' => exact absurd h (h' id)
  | fallback h =>
      cases h' with
      | own h' => exact absurd h' (h id')
      | fallback _ => rfl

theorem Chooses.of_denotes_configured {fallback : StrategyId}
    (h : request.Denotes .configured) :
    request.Chooses fallback fallback :=
  .fallback fun _ hid => nomatch hid.unique h

end StrategyRequest

namespace Settings

/-- What members ask for as the default: a text asks by name, and nothing else
can. -/
def strategyRequest (fields : Json.Fields) : StrategyRequest :=
  match (fields.lookup strategyKey).getD (.string "lsq2") with
  | .string text => .name text
  | value => .unsupported value.shown

theorem selectorOf?_member (fields : Json.Fields) :
    selectorOf? ((fields.lookup strategyKey).getD (.string "lsq2")) =
      (strategyRequest fields).selector? := by
  rw [strategyRequest]
  cases (fields.lookup strategyKey).getD (.string "lsq2") <;> rfl

/-- Members choose their default over the standard strategy. -/
theorem chooses_fallbackOf (fields : Json.Fields) :
    (strategyRequest fields).Chooses standardStrategy
      (fallbackOf ((fields.lookup strategyKey).getD (.string "lsq2"))).1 := by
  rw [fallbackOf, selectorOf?_member]
  cases hselector : (strategyRequest fields).selector? with
  | none =>
      exact .fallback fun id =>
        StrategyRequest.selector?_eq_none_iff.mp hselector (.concrete id)
  | some s =>
      have hdenotes := StrategyRequest.selector?_eq_some_iff.mp hselector
      cases s with
      | configured => exact .of_denotes_configured hdenotes
      | concrete id => exact .own hdenotes

end Settings

namespace Tracker

variable {α : Type} [Scalar α] {settings : Settings α}
    {request : StrategyRequest}

theorem create_of_denotes {s : Selector} {id : StrategyId}
    (h : request.Denotes s) (hresolve : settings.resolve s = .concrete id) :
    create request settings = ⟨[], .ok (ofStrategy id settings)⟩ := by
  have hselector : request.selector?.map settings.resolve =
      some (.concrete id) := by
    rw [StrategyRequest.selector?_eq_some_iff.mpr h, Option.map_some, hresolve]
  cases h <;> rw [create, hselector] <;> nofun

theorem create_of_forall_not_denotes {fallback : StrategyId}
    (hfallback : settings.fallback = .concrete fallback)
    (hsupported : ∀ kind, request ≠ .unsupported kind)
    (h : ∀ s, ¬ request.Denotes s) :
    create request settings =
      ⟨[.unknownStrategy request.shown fallback.name],
          .ok (ofStrategy fallback settings)⟩ := by
  have hselector : request.selector?.map settings.resolve = none := by
    rw [StrategyRequest.selector?_eq_none_iff.mpr h, Option.map_none]
  rw [create, hselector, hfallback]
  · rfl
  · exact hsupported

/-- Over a default, a request that may name a strategy gets a tracker of the one
it chooses. -/
theorem exists_create_of_fallback {fallback : StrategyId}
    (hfallback : settings.fallback = .concrete fallback)
    (hsupported : ∀ kind, request ≠ .unsupported kind) :
    ∃ id, request.Chooses fallback id ∧
      (create request settings).result = .ok (ofStrategy id settings) := by
  by_cases hdenotes : ∃ s, request.Denotes s
  · obtain ⟨s, hs⟩ := hdenotes
    cases s with
    | configured =>
        refine ⟨fallback, .of_denotes_configured hs, ?_⟩
        rw [create_of_denotes hs hfallback]
    | concrete id =>
        refine ⟨id, .own hs, ?_⟩
        rw [create_of_denotes hs rfl]
  · have hnone : ∀ s, ¬ request.Denotes s := not_exists.mp hdenotes
    refine ⟨fallback, .fallback fun id => hnone (.concrete id), ?_⟩
    rw [create_of_forall_not_denotes hfallback hsupported hnone]

/-- With the settings of a file a tracker can always be made.  They have a
default, the standard strategy if the file names none.  A request of a kind that
names no strategy is refused; any other ends in a tracker of the strategy that
it chooses over the default, with a warning just when it denotes no selector. -/
theorem create_of_ofMembers {fields : Json.Fields} {settings : Settings Float}
    (h : (Settings.ofMembers fields).result = .ok settings) :
    ∃ fallback, settings.fallback = .concrete fallback ∧
      (Settings.strategyRequest fields).Chooses
        Settings.standardStrategy fallback ∧
      (∀ kind, create (.unsupported kind) settings =
          ⟨[], .error (.unsupported kind)⟩) ∧
      ∀ request : StrategyRequest, (∀ kind, request ≠ .unsupported kind) →
        (∃ t, (create request settings).result = .ok t ∧ t.settings = settings ∧
          request.Chooses fallback t.strategyId ∧
          t.strategy = Strategy.ofPlan t.strategyId.plan) ∧
        ((∃ s, request.Denotes s) → (create request settings).warnings = []) ∧
        ((∀ s, ¬ request.Denotes s) → (create request settings).warnings =
          [.unknownStrategy request.shown fallback.name]) := by
  obtain ⟨-, hfallback⟩ := Settings.result_ofMembers_eq_ok_iff.mp h
  refine ⟨_, hfallback, Settings.chooses_fallbackOf fields, fun kind => rfl, ?_⟩
  intro request hsupported
  refine ⟨?_, ?_, ?_⟩
  · obtain ⟨id, hchooses, hcreated⟩ :=
      exists_create_of_fallback hfallback hsupported
    exact ⟨ofStrategy id settings, hcreated, rfl, hchooses, rfl⟩
  · rintro ⟨s, hs⟩
    obtain ⟨id, hresolve⟩ : ∃ id, settings.resolve s = .concrete id := by
      cases s with
      | configured => exact ⟨_, hfallback⟩
      | concrete id => exact ⟨id, rfl⟩
    rw [create_of_denotes hs hresolve]
  · intro hnone
    rw [create_of_forall_not_denotes hfallback hsupported hnone]

/-- A request that names nothing gets the strategy that the file names in its
own way. -/
theorem create_of_ofMembers_longS :
    let fields : Json.Fields := [(Settings.strategyKey, .string " lſq3\t")]
    let settings : Settings Float := ⟨.concrete .lsq3, 40.0⟩
    (Settings.ofMembers fields).result = .ok settings ∧
      (Settings.strategyRequest fields).Denotes (.concrete .lsq3) ∧
      (∀ s, ¬ (StrategyRequest.name "fast").Denotes s) ∧
      (create (.name "fast") settings).warnings =
        [.unknownStrategy "'fast'" "LSQ3"] ∧
      ∃ t, (create (.name "fast") settings).result = .ok t ∧
        t.strategyId = .lsq3 := by
  intro fields settings
  have haccepted : (Settings.ofMembers fields).result = .ok settings := by rfl
  have hdenotes : (Settings.strategyRequest fields).Denotes (.concrete .lsq3) :=
    StrategyRequest.selector?_eq_some_iff.mp rfl
  have hunknown : ∀ s, ¬ (StrategyRequest.name "fast").Denotes s :=
    StrategyRequest.selector?_eq_none_iff.mp rfl
  obtain ⟨fallback, -, hfile, -, hrequests⟩ := create_of_ofMembers haccepted
  obtain rfl : fallback = .lsq3 := hfile.unique (.own hdenotes)
  obtain ⟨⟨t, hcreated, -, hchooses, -⟩, -, hwarned⟩ :=
    hrequests (.name "fast") nofun
  refine ⟨haccepted, hdenotes, hunknown, hwarned hunknown, t, hcreated, ?_⟩
  exact hchooses.unique (.fallback fun id => hunknown (.concrete id))

end Tracker

end PointerMotion
