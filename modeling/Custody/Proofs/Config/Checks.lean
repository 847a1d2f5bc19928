import Custody.Proofs.Config.Reading

/-!
# Checks of settings

What settings are checked for before a plan is made of them is a list of checks, `Check.all`.  Each
says what has to hold (`Check.Holds`), what is reported if it does not (`Check.Reports`) and which
settings it looks at (`Check.reads`).  `LoadPlan.ofSettings_first_failing` says that a plan is made
if all checks hold, and that otherwise the first one that fails decides the error, whatever is found
under the settings that only later checks look at.
-/

namespace Custody

open Text

namespace LoadPlan

variable {s s' : Settings} {heading key t : String} {e : Error}

/-! ### What has to hold -/

/-- What settings are checked for. -/
inductive Check where
  /-- A setting is there and is not blank. -/
  | filled (heading key : String)
  /-- No code is blank. -/
  | codes
  /-- A date can be read if it is there. -/
  | dated (key : String) (default : Date)
  /-- The first day is not after the last. -/
  | ordered
  /-- The timeframe has the name of one if it is there. -/
  | timeframe
  /-- The applied price has the name of one if it is there. -/
  | price
  /-- Every part of the list of indicators that is not blank names a kind that can be read. -/
  | indicators

namespace Check

/-- The checks in the order in which they are made. -/
def all : List Check :=
  [filled "data" "path", filled "load" "exchange", filled "load" "codes", codes,
    dated "start_date" Date.first, dated "end_date" Date.last, ordered, timeframe, price,
    indicators]

/-- The settings that a check looks at. -/
def reads : Check → List (String × String)
  | filled heading key => [(heading, key)]
  | codes => [("load", "codes")]
  | dated key _ => [("load", key)]
  | ordered => [("load", "start_date"), ("load", "end_date")]
  | timeframe => [("load", "timeframe")]
  | price => [("load", "applied_price")]
  | indicators => [("load", "indicators")]

/-- What a check stands for. -/
def Holds (s : Settings) : Check → Prop
  | filled heading key => IsFilled s heading key
  | codes => ∀ t ∈ s.text? "load" "codes", ∀ part ∈ fields ',' t.toList, isBlankText part = false
  | dated key default => ∃ d, IsDated s key default d
  | ordered => ∀ start stop, IsDated s "start_date" Date.first start →
      IsDated s "end_date" Date.last stop → start ≤ stop
  | timeframe => ∀ t ∈ s.text? "load" "timeframe",
      ∃ v : Timeframe, upperString (trimString t) = v.text
  | price => ∀ t ∈ s.text? "load" "applied_price",
      ∃ v : AppliedPrice, lowerString (trimString t) = v.text
  | indicators => ∀ t ∈ s.text? "load" "indicators", ∀ part ∈ tokens ',' t.toList,
      ∃ k, IndicatorKind.Names part k

/-- The error of a check that fails. -/
def Reports (s : Settings) (e : Error) : Check → Prop
  | filled heading key => e = .configMissing heading key
  | codes => e = .configInvalid "load" "codes" "empty token in code list"
  | dated key _ =>
    e = .configInvalid "load" key ("invalid " ++ key ++ " format, expected YYYY-MM-DD")
  | ordered => e = .configInvalid "load" "start_date" "start_date must not be after end_date"
  | timeframe => ∃ t ∈ s.text? "load" "timeframe",
      e = .configInvalid "load" "timeframe" ("unknown timeframe '" ++ trimString t ++ "'")
  | price => ∃ t ∈ s.text? "load" "applied_price",
      e = .configInvalid "load" "applied_price"
        ("unknown applied price '" ++ lowerString (trimString t) ++ "'")
  | indicators => ∃ t ∈ s.text? "load" "indicators",
      ∃ before part after, tokens ',' t.toList = before ++ part :: after ∧
        (∀ b ∈ before, ∃ k, IndicatorKind.Names b k) ∧ (¬∃ k, IndicatorKind.Names part k) ∧
          e = .unknownIndicator (String.ofList (trim part))

/-- One check by itself.  It passes where an earlier one already fails on what it looks at. -/
def run (s : Settings) : Check → Except Error Unit
  | filled heading key => (required s heading key).map fun _ => ()
  | codes =>
    match s.text? "load" "codes" with
    | none => .ok ()
    | some t => (readCodes t).map fun _ => ()
  | dated key default => (readDate s key default).map fun _ => ()
  | ordered =>
    match readDate s "start_date" Date.first, readDate s "end_date" Date.last with
    | .ok start, .ok stop =>
      if stop < start then
        .error (invalid "start_date" "start_date must not be after end_date")
      else .ok ()
    | _, _ => .ok ()
  | timeframe => (readNamed s "timeframe" Timeframe.read .d1).map fun _ => ()
  | price => (readNamed s "applied_price" AppliedPrice.read .closing).map fun _ => ()
  | indicators => (readIndicators s).map fun _ => ()

end Check

/-- Settings have the same texts under some names. -/
def AgreeOn (keys : List (String × String)) (s s' : Settings) : Prop :=
  ∀ k ∈ keys, s.text? k.1 k.2 = s'.text? k.1 k.2

instance (keys : List (String × String)) (s s' : Settings) : Decidable (AgreeOn keys s s') :=
  inferInstanceAs (Decidable (∀ k ∈ keys, _))

/-- The first check that settings fail, behind those that they pass. -/
structure FailsFirst (s : Settings) (before : List Check) (c : Check) : Prop where
  first : before ++ [c] <+: Check.all
  holds : ∀ b ∈ before, b.Holds s
  fails : ¬c.Holds s

/-! ### One check -/

namespace Check

variable {c : Check}

theorem run_codes_of_required (h : required s "load" "codes" = .ok t) :
    run s codes = (readCodes t).map fun _ => () := by
  obtain ⟨u, hu, -, rfl⟩ := required_eq_ok_iff.1 h
  rw [run, hu, readCodes_trimString]

theorem run_ordered_of_readDate {start stop : Date}
    (hstart : readDate s "start_date" Date.first = .ok start)
    (hstop : readDate s "end_date" Date.last = .ok stop) :
    run s ordered =
      (if stop < start then
        .error (invalid "start_date" "start_date must not be after end_date")
      else .ok (start, stop) : Except Error (Date × Date)).map fun _ => () := by
  rw [run, hstart, hstop, apply_ite (Except.map fun _ => ())]
  rfl

theorem run_ordered_eq_ok_iff : run s ordered = .ok () ↔ ordered.Holds s := by
  simp only [Holds, ← readDate_eq_ok_iff]
  constructor
  · intro h start stop hstart hstop
    rw [run_ordered_of_readDate hstart hstop] at h
    split at h
    · cases h
    · next hlt => exact Int.not_lt.1 hlt
  · intro h
    cases hstart : readDate s "start_date" Date.first with
    | error e => rw [run, hstart]
    | ok start =>
      cases hstop : readDate s "end_date" Date.last with
      | error e => rw [run, hstart, hstop]
      | ok stop =>
        have hlt : ¬stop < start := Int.not_lt.2 (h start stop hstart hstop)
        rw [run_ordered_of_readDate hstart hstop, if_neg hlt]
        rfl

/-- A check passes exactly if what it stands for holds. -/
theorem run_eq_ok_iff : c.run s = .ok () ↔ c.Holds s := by
  cases c with
  | filled heading key => simp [run, Holds, map_eq_ok_iff, exists_required_iff]
  | codes =>
    simp only [run, Holds]
    cases s.text? "load" "codes" with
    | none => simp
    | some t => simp [map_eq_ok_iff, exists_readCodes_iff]
  | dated key default => simp [run, Holds, map_eq_ok_iff, readDate_eq_ok_iff]
  | ordered => exact run_ordered_eq_ok_iff
  | timeframe => simp [run, Holds, map_eq_ok_iff, exists_readNamed_iff, Timeframe.read_eq_ok_iff]
  | price => simp [run, Holds, map_eq_ok_iff, exists_readNamed_iff, AppliedPrice.read_eq_ok_iff]
  | indicators => simp [run, Holds, map_eq_ok_iff, exists_readIndicators_iff]

instance (s : Settings) (c : Check) : Decidable (c.Holds s) :=
  decidable_of_iff (c.run s = .ok ()) run_eq_ok_iff

theorem reports_of_run (h : c.run s = .error e) : c.Reports s e := by
  cases c with
  | filled heading key => exact eq_of_required_eq_error (map_eq_error_iff.1 h)
  | codes =>
    simp only [run] at h
    split at h
    · cases h
    · exact eq_of_readCodes_eq_error (map_eq_error_iff.1 h)
  | dated key default => exact eq_of_readDate_eq_error (map_eq_error_iff.1 h)
  | ordered =>
    simp only [run] at h
    split at h
    · split at h
      · exact (Except.error.inj h).symm
      · cases h
    · cases h
  | timeframe =>
    obtain ⟨t, ht, reason, hr, rfl⟩ := exists_of_readNamed_eq_error (map_eq_error_iff.1 h)
    exact ⟨t, ht, by rw [Timeframe.eq_of_read_eq_error hr]; rfl⟩
  | price =>
    obtain ⟨t, ht, reason, hr, rfl⟩ := exists_of_readNamed_eq_error (map_eq_error_iff.1 h)
    exact ⟨t, ht, by rw [AppliedPrice.eq_of_read_eq_error hr]; rfl⟩
  | indicators =>
    obtain ⟨t, ht, hr⟩ := readIndicators_eq_error_iff.1 (map_eq_error_iff.1 h)
    exact ⟨t, ht, IndicatorKind.readList_eq_error_iff.1 hr⟩

theorem Reports.unique {e' : Error} (h : c.Reports s e) (h' : c.Reports s e') : e = e' := by
  cases c with
  | filled | codes | dated | ordered => exact Eq.trans h (Eq.symm h')
  | timeframe | price =>
    obtain ⟨t, ht, rfl⟩ := h
    obtain ⟨t', ht', rfl⟩ := h'
    rw [Option.mem_unique ht ht']
  | indicators =>
    obtain ⟨t, ht, h⟩ := h
    obtain ⟨t', ht', h'⟩ := h'
    obtain rfl := Option.mem_unique ht ht'
    have h := IndicatorKind.readList_eq_error_iff.2 h
    rw [IndicatorKind.readList_eq_error_iff.2 h'] at h
    exact (Except.error.inj h).symm

theorem run_eq_error_iff : c.run s = .error e ↔ ¬c.Holds s ∧ c.Reports s e := by
  rw [← run_eq_ok_iff]
  constructor
  · intro h
    exact ⟨by rw [h]; exact nofun, reports_of_run h⟩
  · rintro ⟨hne, hr⟩
    cases h : c.run s with
    | ok u => exact absurd h hne
    | error e' => rw [(reports_of_run h).unique hr]

/-- A check looks at nothing but its settings. -/
theorem run_congr (h : AgreeOn c.reads s s') : c.run s = c.run s' := by
  cases c with
  | filled heading key =>
    have h := h (heading, key) List.mem_cons_self
    simp only [run, required, h]
  | codes =>
    have h := h ("load", "codes") List.mem_cons_self
    simp only [run, h]
  | dated key default =>
    have h := h ("load", key) List.mem_cons_self
    simp only [run, readDate, h]
  | ordered =>
    have h₁ := h ("load", "start_date") (by decide)
    have h₂ := h ("load", "end_date") (by decide)
    simp only [run, readDate, h₁, h₂]
  | timeframe =>
    have h := h ("load", "timeframe") List.mem_cons_self
    simp only [run, readNamed, h]
  | price =>
    have h := h ("load", "applied_price") List.mem_cons_self
    simp only [run, readNamed, h]
  | indicators =>
    have h := h ("load", "indicators") List.mem_cons_self
    simp only [run, readIndicators, h]

end Check

/-! ### All checks -/

/-- What comes after a step that succeeds decides whether the whole does. -/
theorem map_bind_unit {α β ε : Type} {x : Except ε α} {f : α → Except ε β} {y : Except ε Unit}
    (h : ∀ a, x = .ok a → ((f a).map fun _ => ()) = y) :
    ((x >>= f).map fun _ => ()) = (x.map fun _ => ()) >>= fun _ => y := by
  cases x with
  | error e => rfl
  | ok a => exact h a rfl

/-- A plan is made of settings that pass all checks. -/
theorem map_ofSettings (s : Settings) :
    ((ofSettings s).map fun _ => ()) = forM Check.all (Check.run s) := by
  simp only [ofSettings, readDates, bind_assoc, Check.all, List.forM_cons, List.forM_nil]
  refine map_bind_unit fun path _ => ?_
  refine map_bind_unit fun exchange _ => ?_
  refine map_bind_unit fun t ht => ?_
  rw [Check.run_codes_of_required ht]
  refine map_bind_unit fun codes _ => ?_
  refine map_bind_unit fun start hstart => ?_
  refine map_bind_unit fun stop hstop => ?_
  rw [Check.run_ordered_of_readDate hstart hstop]
  refine map_bind_unit fun days _ => ?_
  refine map_bind_unit fun timeframe _ => ?_
  refine map_bind_unit fun price _ => ?_
  refine map_bind_unit fun kinds _ => ?_
  rfl

theorem exists_ofSettings_iff : (∃ p, ofSettings s = .ok p) ↔ ∀ c ∈ Check.all, c.Holds s := by
  have h := map_ofSettings s
  simp only [← Check.run_eq_ok_iff, ← forM_eq_ok_iff, ← h, map_eq_ok_iff, and_true]

theorem ofSettings_eq_error_iff : ofSettings s = .error e ↔
    ∃ before c, FailsFirst s before c ∧ c.Reports s e := by
  rw [← map_eq_error_iff, map_ofSettings, forM_eq_error_iff]
  simp only [Check.run_eq_ok_iff, Check.run_eq_error_iff]
  constructor
  · rintro ⟨before, c, after, hall, hbefore, hc, he⟩
    exact ⟨before, c, ⟨⟨after, by rw [hall, List.append_assoc]; rfl⟩, hbefore, hc⟩, he⟩
  · rintro ⟨before, c, ⟨⟨after, hall⟩, hbefore, hc⟩, he⟩
    exact ⟨before, c, after, by rw [← hall, List.append_assoc]; rfl, hbefore, hc, he⟩

theorem AgreeOn.reads {cs : List Check} {c : Check} (h : AgreeOn (cs.flatMap Check.reads) s s')
    (hc : c ∈ cs) : AgreeOn c.reads s s' :=
  fun k hk => h k (List.mem_flatMap.2 ⟨c, hc, hk⟩)

/-- Settings that agree on all that is looked at up to the first failing check fail it as well. -/
theorem FailsFirst.of_agreeOn {before : List Check} {c : Check} (h : FailsFirst s before c)
    (hs : AgreeOn ((before ++ [c]).flatMap Check.reads) s s') : FailsFirst s' before c := by
  have hholds : ∀ b ∈ before ++ [c], (b.Holds s ↔ b.Holds s') := fun b hb => by
    rw [← Check.run_eq_ok_iff, Check.run_congr (hs.reads hb), Check.run_eq_ok_iff]
  constructor
  · exact h.first
  · intro b hb
    exact (hholds b (List.mem_append_left _ hb)).1 (h.holds b hb)
  · exact (hholds c List.mem_concat_self).not.1 h.fails

/-- A plan is made of settings exactly if all checks hold.  Otherwise the error is that of the first
check that fails, and the settings that only later checks look at have no part in it. -/
theorem ofSettings_first_failing (s : Settings) :
    ((∃ p, ofSettings s = .ok p) ↔ ∀ c ∈ Check.all, c.Holds s) ∧
    (∀ e, ofSettings s = .error e ↔ ∃ before c, FailsFirst s before c ∧ c.Reports s e) ∧
    ∀ (s' : Settings) (before : List Check) (c : Check), FailsFirst s before c →
      AgreeOn ((before ++ [c]).flatMap Check.reads) s s' →
        ∃ e, c.Reports s e ∧ ofSettings s = .error e ∧ ofSettings s' = .error e := by
  refine ⟨exists_ofSettings_iff, fun e => ofSettings_eq_error_iff, ?_⟩
  intro s' before c h hs
  have h' := h.of_agreeOn hs
  cases hc : c.run s with
  | ok u => exact absurd (Check.run_eq_ok_iff.1 hc) h.fails
  | error e =>
    have hr := Check.reports_of_run hc
    rw [Check.run_congr (hs.reads List.mem_concat_self)] at hc
    exact ⟨e, hr, ofSettings_eq_error_iff.2 ⟨before, c, h, hr⟩,
      ofSettings_eq_error_iff.2 ⟨before, c, h', Check.reports_of_run hc⟩⟩

/-- The days of these settings are in the wrong order. -/
def reversedSettings (later : List ((String × String) × String)) : Settings :=
  ⟨fun heading key => ([(("data", "path"), " d "), (("load", "exchange"), "ASX"),
    (("load", "codes"), "bhp, CBA"), (("load", "start_date"), "2024-12-31"),
    (("load", "end_date"), " 2024-01-01 ")] ++ later).lookup (heading, key)⟩

/-- The order of the days is reported, and neither a timeframe nor an indicator behind them that
makes no sense. -/
theorem ofSettings_first_failing_reversed :
    let s := reversedSettings [(("load", "timeframe"), "H2"), (("load", "indicators"), "SMA(0)")]
    let s' := reversedSettings [(("load", "timeframe"), "h4")]
    let e := Error.configInvalid "load" "start_date" "start_date must not be after end_date"
    FailsFirst s (Check.all.take 6) .ordered ∧
      AgreeOn ((Check.all.take 6 ++ [Check.ordered]).flatMap Check.reads) s s' ∧
        ofSettings s = .error e ∧ ofSettings s' = .error e := by
  intro s s' e
  have h : FailsFirst s (Check.all.take 6) .ordered :=
    ⟨⟨Check.all.drop 7, rfl⟩, by decide, by decide⟩
  have hs : AgreeOn ((Check.all.take 6 ++ [Check.ordered]).flatMap Check.reads) s s' := by decide
  obtain ⟨e', rfl, he, he'⟩ := (ofSettings_first_failing s).2.2 s' _ _ h hs
  exact ⟨h, hs, he, he'⟩

end LoadPlan

end Custody
