/-
# HeavenFox.Platform.GpioRuns -- the polarity a consumer sees

What stands at a line after a get is what stood there before together with the specifier: it is the
specifier alone only if nothing else was left, and the owner of a line keeps its polarity only if
nobody who asks for the line names another one.
-/
import HeavenFox.Platform.Gpio

namespace HeavenFox.Platform

open HeavenFox.Common HeavenFox.Logic

/-! ## What the functions do to a line -/

/-- The flags that say how a level is read and driven. -/
def GpioFlag.IsPolarity (flag : GpioFlag) : Prop :=
  flag = .activeLow ∨ flag = .openDrain ∨ flag = .openSource

theorem GpioFlag.IsPolarity.ne {flag : GpioFlag} (h : flag.IsPolarity) :
    flag ≠ .isOut ∧ flag ≠ .requested := by
  obtain rfl | rfl | rfl := h <;> decide

/-- The flags cell of a specifier; one that has no such cell asks for none. -/
def OfPhandleArgs.flags (spec : OfPhandleArgs) : Nat :=
  if spec.args.length > 1 then spec.args.getD ((if spec.args.length = 3 then 1 else 0) + 1) 0 else 0

/-- What is read as its flags: of a specifier without the cell, what the variable held. -/
def OfPhandleArgs.word (spec : OfPhandleArgs) (junk : Nat) : Nat :=
  if spec.args.length > 1 then spec.flags else junk

section Lines

variable {chip : GpioChip} {re : GpioReplies} {desc : GpioDesc} {flag : GpioFlag} {offset : Nat}

theorem setDtFlags_flags (flags : Nat) :
    (desc.setDtFlags flags).flags flag = (desc.flags flag || dtFlag flags flag) := by
  unfold GpioDesc.setDtFlags GpioDesc.setFlags
  cases flag <;> cases h0 : flags.testBit 0 <;> cases h1 : flags.testBit 1 <;>
    cases h2 : flags.testBit 2 <;> simp [dtFlag, h0, h1, h2]

theorem setDtFlags_rest (desc : GpioDesc) (flags : Nat) :
    (desc.setDtFlags flags).label = desc.label ∧ (desc.setDtFlags flags).moves = desc.moves := by
  unfold GpioDesc.setDtFlags GpioDesc.setFlags
  split <;> split <;> split <;> exact ⟨rfl, rfl⟩

/-- What is there already is not changed. -/
theorem setDtFlags_eq {flags : Nat}
    (h : ∀ flag, dtFlag flags flag = true → desc.flags flag = true) :
    desc.setDtFlags flags = desc := by
  obtain ⟨hlabel, hmoves⟩ := setDtFlags_rest desc flags
  refine GpioDesc.ext (funext fun flag => ?_) hlabel hmoves
  rw [setDtFlags_flags]
  cases hflag : dtFlag flags flag with
  | false => rw [Bool.or_false]
  | true => rw [Bool.or_true, h flag hflag]

/-- A direction changes no flag but `NR_FWK_GPIODESC_IS_OUT`. -/
theorem setDirection_flags (h : flag ≠ .isOut) (out : Bool) (value : Int) :
    (fwkGpioSetDirection chip re desc out value).flags flag = desc.flags flag := by
  unfold fwkGpioSetDirection GpioDesc.ask GpioDesc.setFlags GpioDesc.clrFlags
  split
  · split <;> simp [h]
  · split
    · split <;> simp [h]
    · rfl

theorem setDirectionOutput_flags (h : flag ≠ .isOut) (value : Int) :
    (fwkGpioSetDirectionOutput chip re desc value).flags flag = desc.flags flag := by
  unfold fwkGpioSetDirectionOutput fwkGpioSetDirectionInput
  split
  · exact setDirection_flags h _ _
  · split
    · exact setDirection_flags h _ _
    · exact setDirection_flags h _ _

theorem getDirectionFlags_flags (h : flag ≠ .isOut) (flags : Nat) :
    (getDirectionFlags chip re desc flags).flags flag = desc.flags flag := by
  unfold getDirectionFlags fwkGpioSetDirectionInput
  split
  · rfl
  · split
    · exact setDirectionOutput_flags h _
    · exact setDirection_flags h _ _

/-- A line that is taken is refused. -/
theorem request_taken (hoffset : offset < chip.ngpios) (h : desc.flags .requested = true)
    (label : List Char) : fwkGpioRequest chip re offset desc label = (-erUsed, desc) := by
  have hneg : (-erUsed : Int) < 0 := by decide
  simp only [fwkGpioRequest, fwkGpiochipRequest, if_neg (Nat.not_le.mpr hoffset), h, if_true,
    if_pos hneg]

/-- A free line is taken, if its chip tells directions. -/
theorem request_free (re : GpioReplies) (hoffset : offset < chip.ngpios) (hlow : offset < 2 ^ 31)
    (h : desc.flags .requested = false) (label : List Char) :
    ∃ retval desc', fwkGpioRequest chip re offset desc label = (retval, desc') ∧
      (retval = 0 ↔ chip.getDirection = true) ∧ desc'.flags .requested = true ∧
      ∀ flag, flag ≠ .isOut → flag ≠ .requested → desc'.flags flag = desc.flags flag := by
  have hnum : ((offset : Int).bmod (2 ^ 32)) = offset :=
    Int.bmod_eq_of_le_mul_two (by omega) (by omega)
  have hneg : ¬ (offset : Int) < 0 := by omega
  simp only [fwkGpioRequest, fwkGpiochipRequest, if_neg (Nat.not_le.mpr hoffset), h, hnum,
    Bool.false_eq_true, if_false, if_neg hneg, fwkGpioGetDirection]
  cases chip.getDirection with
  | false =>
    refine ⟨-erIoerr, _, rfl, by decide, by simp [GpioDesc.setFlags], fun flag h1 h2 => ?_⟩
    simp [GpioDesc.setFlags, h2]
  | true =>
    cases re.getDirection.testBit 1 with
    | true =>
      refine ⟨erNormal, _, rfl, by decide, by simp [GpioDesc.setFlags], fun flag h1 h2 => ?_⟩
      simp [GpioDesc.setFlags, h1, h2]
    | false =>
      refine ⟨erNormal, _, rfl, by decide, by simp [GpioDesc.setFlags, GpioDesc.clrFlags],
        fun flag h1 h2 => ?_⟩
      simp [GpioDesc.setFlags, GpioDesc.clrFlags, h1, h2]

end Lines

/-! ## Looking up -/

variable {cfg : GpioTable}

theorem xlate_word {chip : GpioChip} {spec : OfPhandleArgs} {flags : Nat} :
    (fwkGpiochipOfXlate chip spec flags).2 = flags ∨
      (fwkGpiochipOfXlate chip spec flags).2 = spec.word flags := by
  unfold fwkGpiochipOfXlate
  split
  · exact .inl rfl
  · split
    · exact .inl rfl
    · right
      by_cases hlen : spec.args.length > 1 <;> simp [OfPhandleArgs.word, OfPhandleArgs.flags, hlen]

/-- A translated specifier has its flags read. -/
theorem xlate_found {chip : GpioChip} {spec : OfPhandleArgs} {flags : Nat}
    (h : ¬ (fwkGpiochipOfXlate chip spec flags).1 < 0) :
    (fwkGpiochipOfXlate chip spec flags).2 = spec.word flags ∧
      (fwkGpiochipOfXlate chip spec flags).1.toNat < 2 ^ 31 := by
  unfold fwkGpiochipOfXlate at h ⊢
  split at h
  next => exact absurd (by decide : (-erNodev : Int) < 0) h
  next hnode =>
    split at h
    next => exact absurd (by decide : (-erCheckerr : Int) < 0) h
    next hcells =>
      rw [if_neg hnode, if_neg hcells]
      refine ⟨?_, ?_⟩
      · by_cases hlen : spec.args.length > 1 <;>
          simp [OfPhandleArgs.word, OfPhandleArgs.flags, hlen]
      · have hlt := Int.bmod_lt (m := 2 ^ 32)
          (x := ((spec.args.getD (if spec.args.length = 3 then 1 else 0) 0 : Nat) : Int)) (by decide)
        simp only [not_lt] at h ⊢
        omega

theorem word_word {spec : OfPhandleArgs} {flags : Nat} : spec.word (spec.word flags) = spec.word flags := by
  unfold OfPhandleArgs.word
  split <;> rfl

/-- A line that is found is one of the chip, with the flags of the specifier. -/
theorem descFind_found {spec : OfPhandleArgs} {c offset w : Nat} :
    ∀ {flags : Nat} {list : List Nat},
      fwkGpiochipAndDescFind cfg spec flags list = some (c, offset, w) →
        w = spec.word flags ∧ offset < (cfg.chip c).ngpios ∧ offset < 2 ^ 31
  | _, [], h => by cases h
  | flags, c' :: rest, h => by
    rw [fwkGpiochipAndDescFind] at h
    simp only at h
    split at h
    next =>
      obtain ⟨hw, hrest⟩ := descFind_found h
      refine ⟨hw.trans ?_, hrest⟩
      obtain hsame | hword := @xlate_word (cfg.chip c') spec flags
      · rw [hsame]
      · rw [hword, word_word]
    next hneg =>
      split at h
      next hlt =>
        cases h
        exact ⟨(xlate_found hneg).1, hlt, (xlate_found hneg).2⟩
      next => cases h

/-- The line a get is about, with its specifier. -/
def soughtLine (cfg : GpioTable) (spec : Option OfPhandleArgs) (junk : Nat)
    (conId : Option (List Char)) : Option (OfPhandleArgs × Nat × Nat) :=
  if conId.isNone then none
  else spec.bind fun sp =>
    (fwkGpiochipAndDescFind cfg sp junk cfg.list).map fun found => (sp, found.1, found.2.1)

section Gets

variable {re : GpioReplies} {s : GpioLines} {spec : Option OfPhandleArgs} {junk : Nat}
  {conId : Option (List Char)} {flags : Nat} {sp : OfPhandleArgs} {c offset : Nat}

theorem descGet_none (h : soughtLine cfg spec junk conId = none) :
    fwkGpioDescGet cfg re s spec junk conId flags = (none, s) := by
  unfold soughtLine at h
  unfold fwkGpioDescGet fwkOfGetNamedGpiodescFlags
  cases conId with
  | none => rfl
  | some label =>
    cases spec with
    | none => rfl
    | some sp =>
      cases hfind : fwkGpiochipAndDescFind cfg sp junk cfg.list with
      | none => simp only [hfind]
      | some found => simp [hfind] at h

/-- What a get has found it is about. -/
theorem soughtLine_found (h : soughtLine cfg spec junk conId = some (sp, c, offset)) :
    ∃ label, conId = some label ∧ spec = some sp ∧
      fwkGpiochipAndDescFind cfg sp junk cfg.list = some (c, offset, sp.word junk) := by
  unfold soughtLine at h
  cases conId with
  | none => simp at h
  | some label =>
    cases spec with
    | none => simp at h
    | some sp' =>
      simp only [Option.isNone_some, Bool.false_eq_true, if_false, Option.bind_some,
        Option.map_eq_some_iff, Prod.mk.injEq] at h
      obtain ⟨⟨c', offset', w⟩, hfind, rfl, rfl, rfl⟩ := h
      obtain ⟨rfl, -⟩ := descFind_found hfind
      exact ⟨label, rfl, rfl, hfind⟩

/-- A get of a line that is taken. -/
theorem descGet_taken (h : soughtLine cfg spec junk conId = some (sp, c, offset))
    (htaken : (s c offset).flags .requested = true) :
    fwkGpioDescGet cfg re s spec junk conId flags =
      (none, s.set c offset ((s c offset).setDtFlags (sp.word junk))) := by
  obtain ⟨label, rfl, rfl, hfind⟩ := soughtLine_found h
  obtain ⟨-, hoffset, -⟩ := descFind_found hfind
  have hmarked : ((s c offset).setDtFlags (sp.word junk)).flags .requested = true := by
    rw [setDtFlags_flags, htaken, Bool.true_or]
  have hne : (-erUsed : Int) ≠ 0 := by decide
  simp only [fwkGpioDescGet, fwkOfGetNamedGpiodescFlags, hfind, GpioLines.set_self,
    request_taken hoffset hmarked, if_pos hne, GpioLines.set_set]

/-- A get of a free line. -/
theorem descGet_free (re : GpioReplies) (flags : Nat)
    (h : soughtLine cfg spec junk conId = some (sp, c, offset))
    (hfree : (s c offset).flags .requested = false) :
    ∃ desc, fwkGpioDescGet cfg re s spec junk conId flags =
        (if (cfg.chip c).getDirection then some (c, offset) else none, s.set c offset desc) ∧
      desc.flags .requested = true ∧ ∀ flag, flag.IsPolarity →
        desc.flags flag = ((s c offset).flags flag || dtFlag (sp.word junk) flag) := by
  obtain ⟨label, rfl, rfl, hfind⟩ := soughtLine_found h
  obtain ⟨-, hoffset, hlow⟩ := descFind_found hfind
  have hunmarked : ((s c offset).setDtFlags (sp.word junk)).flags .requested = false := by
    rw [setDtFlags_flags, hfree]
    rfl
  obtain ⟨retval, desc, hrequest, hretval, hmarked, hkept⟩ :=
    request_free re hoffset hlow hunmarked label
  simp only [fwkGpioDescGet, fwkOfGetNamedGpiodescFlags, hfind, GpioLines.set_self, hrequest,
    GpioLines.set_set]
  cases hdir : (cfg.chip c).getDirection with
  | false =>
    have hne : retval ≠ 0 := fun heq => by simp [hretval.mp heq] at hdir
    refine ⟨desc, by rw [if_pos hne]; simp, hmarked, fun flag hflag => ?_⟩
    rw [hkept flag hflag.ne.1 hflag.ne.2, setDtFlags_flags]
  | true =>
    have heq : ¬ retval ≠ 0 := not_not.mpr (hretval.mpr hdir)
    refine ⟨getDirectionFlags (cfg.chip c) re desc flags, by rw [if_neg heq]; simp, ?_, ?_⟩
    · rw [getDirectionFlags_flags (by decide), hmarked]
    · intro flag hflag
      rw [getDirectionFlags_flags hflag.ne.1, hkept flag hflag.ne.1 hflag.ne.2, setDtFlags_flags]

end Gets

/-! ## Runs -/

/-- The last get: the line that was found, how it was before, the specifier, and whether the
consumer got it. -/
structure GpioGet where
  chip : Nat
  offset : Nat
  before : GpioDesc
  spec : OfPhandleArgs
  granted : Bool

/-- The lines, which of them a consumer has, and the last get if that was the last call. -/
structure GpioRun where
  lines : GpioLines
  owned : Nat → Nat → Bool
  last : Option GpioGet

/-- `fwk_gpio_desc_get` of a consumer, and `fwk_gpio_desc_put` of the line it has. -/
inductive GpioCall where
  | get (re : GpioReplies) (spec : Option OfPhandleArgs) (junk : Nat) (conId : Option (List Char))
      (flags : Nat)
  | put (re : GpioReplies) (c offset : Nat)

/-- One call; none for a put of a line that nobody has. -/
def gpioStep (cfg : GpioTable) (s : GpioRun) : GpioCall → Option GpioRun
  | .get re spec junk conId flags =>
    let result := fwkGpioDescGet cfg re s.lines spec junk conId flags
    some {
      lines := result.2
      owned := fun c offset => s.owned c offset || result.1 = some (c, offset)
      last := (soughtLine cfg spec junk conId).map fun sought =>
        ⟨sought.2.1, sought.2.2, s.lines sought.2.1 sought.2.2, sought.1, result.1.isSome⟩ }
  | .put re c offset =>
    if s.owned c offset then
      some {
        lines := fwkGpioDescPut cfg re s.lines c offset
        owned := fun c' offset' => s.owned c' offset' && !decide (c' = c ∧ offset' = offset)
        last := none }
    else none

def GpioRun.start : GpioRun := ⟨.start, fun _ _ => false, none⟩

/-- A consumer that gets a line finds the polarity of its specifier there, and one that is refused
leaves the line of its owner alone. -/
def GpioRun.Good (s : GpioRun) : Prop :=
  ∀ g ∈ s.last,
    (g.granted = true → ∀ flag, flag.IsPolarity →
      (s.lines g.chip g.offset).flags flag = dtFlag g.spec.flags flag) ∧
    (g.granted = false → s.owned g.chip g.offset = true → s.lines g.chip g.offset = g.before)

/-- Nothing but the polarity of the specifier is at a free line or read for it, and nothing is read
for a line with an owner that is not there already. -/
def GpioCall.Clean (cfg : GpioTable) (s : GpioRun) : GpioCall → Prop
  | .get _ spec junk conId _ =>
    ∀ sp c offset, soughtLine cfg spec junk conId = some (sp, c, offset) →
      if s.owned c offset then
        ∀ flag, dtFlag (sp.word junk) flag = true → (s.lines c offset).flags flag = true
      else (s.lines c offset).flags .requested = false → (cfg.chip c).getDirection = true →
        ∀ flag, flag.IsPolarity →
          ((s.lines c offset).flags flag || dtFlag (sp.word junk) flag) = dtFlag sp.flags flag
  | .put _ _ _ => True

/-- What a consumer has is marked as requested. -/
def GpioRun.Marked (s : GpioRun) : Prop :=
  ∀ c offset, s.owned c offset = true → (s.lines c offset).flags .requested = true

variable {s t : GpioRun} {re : GpioReplies} {spec : Option OfPhandleArgs} {junk : Nat}
  {conId : Option (List Char)} {flags : Nat} {sp : OfPhandleArgs} {c offset : Nat}

/-- A get that finds no line. -/
theorem gpioStep_none (h : soughtLine cfg spec junk conId = none) :
    gpioStep cfg s (.get re spec junk conId flags) = some { s with last := none } := by
  simp [gpioStep, h, descGet_none h]

/-- A get of a line that is taken. -/
theorem gpioStep_taken (h : soughtLine cfg spec junk conId = some (sp, c, offset))
    (htaken : (s.lines c offset).flags .requested = true) :
    gpioStep cfg s (.get re spec junk conId flags) = some
      { s with
        lines := s.lines.set c offset ((s.lines c offset).setDtFlags (sp.word junk))
        last := some ⟨c, offset, s.lines c offset, sp, false⟩ } := by
  simp [gpioStep, h, descGet_taken h htaken]

/-- A get of a free line. -/
theorem gpioStep_free (re : GpioReplies) (flags : Nat)
    (h : soughtLine cfg spec junk conId = some (sp, c, offset))
    (hfree : (s.lines c offset).flags .requested = false) :
    ∃ desc, gpioStep cfg s (.get re spec junk conId flags) = some {
        lines := s.lines.set c offset desc
        owned := fun c' offset' => s.owned c' offset' ||
          ((cfg.chip c).getDirection && decide (c' = c ∧ offset' = offset))
        last := some ⟨c, offset, s.lines c offset, sp, (cfg.chip c).getDirection⟩ } ∧
      desc.flags .requested = true ∧ ∀ flag, flag.IsPolarity →
        desc.flags flag = ((s.lines c offset).flags flag || dtFlag (sp.word junk) flag) := by
  obtain ⟨desc, hget, hmarked, hflags⟩ :=
    descGet_free re flags h hfree
  refine ⟨desc, ?_, hmarked, hflags⟩
  cases hdir : (cfg.chip c).getDirection with
  | false => simp [gpioStep, h, hget, hdir]
  | true =>
    simp [gpioStep, h, hget, hdir, eq_comm]

theorem gpioStep_marked {i : GpioCall} (h : s.Marked) (hstep : gpioStep cfg s i = some t) :
    t.Marked := by
  cases i with
  | get re spec junk conId flags =>
    cases hsought : soughtLine cfg spec junk conId with
    | none =>
      obtain rfl := Option.some.inj ((gpioStep_none hsought).symm.trans hstep)
      exact h
    | some sought =>
      obtain ⟨sp, c, offset⟩ := sought
      cases hreq : (s.lines c offset).flags .requested with
      | true =>
        obtain rfl := Option.some.inj ((gpioStep_taken hsought hreq).symm.trans hstep)
        intro c' offset' howned
        by_cases hsame : c' = c ∧ offset' = offset
        · obtain ⟨rfl, rfl⟩ := hsame
          simp only [GpioLines.set_self, setDtFlags_flags, hreq, Bool.true_or]
        · simpa only [GpioLines.set_ne _ _ hsame] using h c' offset' howned
      | false =>
        obtain ⟨desc, hget, hmarked, -⟩ := gpioStep_free re flags hsought hreq
        obtain rfl := Option.some.inj (hget.symm.trans hstep)
        intro c' offset' howned
        by_cases hsame : c' = c ∧ offset' = offset
        · obtain ⟨rfl, rfl⟩ := hsame
          simpa only [GpioLines.set_self] using hmarked
        · simp only [hsame, decide_false, Bool.and_false, Bool.or_false] at howned
          simpa only [GpioLines.set_ne _ _ hsame] using h c' offset' howned
  | put re c offset =>
    simp only [gpioStep] at hstep
    split at hstep
    next =>
      obtain rfl := Option.some.inj hstep
      intro c' offset' howned
      simp only [Bool.and_eq_true, Bool.not_eq_true', decide_eq_false_iff_not] at howned
      simpa only [fwkGpioDescPut, GpioLines.set_ne _ _ howned.2] using h c' offset' howned.1
    next => cases hstep

/-- **A clean call is a good one.** -/
theorem gpioStep_good {i : GpioCall} (h : s.Marked) (hi : i.Clean cfg s)
    (hstep : gpioStep cfg s i = some t) : t.Good := by
  cases i with
  | get re spec junk conId flags =>
    cases hsought : soughtLine cfg spec junk conId with
    | none =>
      obtain rfl := Option.some.inj ((gpioStep_none hsought).symm.trans hstep)
      exact fun g hg => by cases hg
    | some sought =>
      obtain ⟨sp, c, offset⟩ := sought
      have hclean := hi sp c offset hsought
      cases hreq : (s.lines c offset).flags .requested with
      | true =>
        obtain rfl := Option.some.inj ((gpioStep_taken hsought hreq).symm.trans hstep)
        rintro g ⟨⟩
        refine ⟨fun hgranted => Bool.noConfusion hgranted, fun _ howned => ?_⟩
        have howned' : s.owned c offset = true := howned
        rw [if_pos howned'] at hclean
        simp only [GpioLines.set_self, setDtFlags_eq hclean]
      | false =>
        obtain ⟨desc, hget, -, hflags⟩ := gpioStep_free re flags hsought hreq
        have hfree : s.owned c offset = false := by
          by_contra howned
          simp [h c offset (by simpa using howned)] at hreq
        obtain rfl := Option.some.inj (hget.symm.trans hstep)
        rintro g ⟨⟩
        rw [if_neg (by simp [hfree])] at hclean
        refine ⟨fun hgranted flag hflag => ?_, fun hrefused howned => ?_⟩
        · simp only [GpioLines.set_self, hflags flag hflag]
          exact hclean hreq hgranted flag hflag
        · simp_all
  | put re c offset =>
    simp only [gpioStep] at hstep
    split at hstep
    next =>
      obtain rfl := Option.some.inj hstep
      exact fun g hg => by cases hg
    next => cases hstep

/-- **Any other call is not.** -/
theorem gpioStep_spoils {i : GpioCall} (h : s.Marked) (hi : ¬ i.Clean cfg s)
    (hstep : gpioStep cfg s i = some t) : ¬ t.Good := by
  cases i with
  | put re c offset => exact absurd trivial hi
  | get re spec junk conId flags =>
    simp only [GpioCall.Clean, not_forall] at hi
    obtain ⟨sp, c, offset, hsought, hdirty⟩ := hi
    intro hgood
    by_cases howned : s.owned c offset = true
    · have hreq := h c offset howned
      obtain rfl := Option.some.inj ((gpioStep_taken hsought hreq).symm.trans hstep)
      rw [if_pos howned] at hdirty
      have hsame := (hgood _ rfl).2 rfl howned
      simp only [GpioLines.set_self] at hsame
      refine hdirty fun flag hflag => ?_
      rw [← hsame, setDtFlags_flags, hflag, Bool.or_true]
    · rw [if_neg howned] at hdirty
      refine hdirty fun hreq hdir flag hflag => ?_
      obtain ⟨desc, hget, -, hflags⟩ := gpioStep_free re flags hsought hreq
      obtain rfl := Option.some.inj (hget.symm.trans hstep)
      have hsame := (hgood _ rfl).1 hdir flag hflag
      simp only [GpioLines.set_self] at hsame
      rw [← hflags flag hflag, hsame]

/-- Owners are marked, and the last get was a good one. -/
def GpioRun.Kept (s : GpioRun) : Prop := s.Marked ∧ s.Good

theorem gpioStep_kept (s : GpioRun) (i : GpioCall) (t : GpioRun) (h : s.Kept) (hi : i.Clean cfg s)
    (hstep : gpioStep cfg s i = some t) : t.Kept :=
  ⟨gpioStep_marked h.1 hstep, gpioStep_good h.1 hi hstep⟩

theorem kept_start_gpio : GpioRun.start.Kept :=
  ⟨fun _ _ howned => Bool.noConfusion howned, fun _ hg => absurd hg (by simp [GpioRun.start])⟩

/-- **The polarity of a line is the consumer's exactly as long as every get is clean.** -/
theorem polarity_kept_iff (cfg : GpioTable) {is : List GpioCall} {s : GpioRun}
    (h : exec (gpioStep cfg) .start is = some s) :
    Always (gpioStep cfg) GpioRun.Good .start is ↔
      Meets (gpioStep cfg) (fun s i => i.Clean cfg s) .start is :=
  always_iff_meets gpioStep_kept (fun _ hs => hs.2)
    (fun _ _ _ hs hi hstep => gpioStep_spoils hs.1 hi hstep) kept_start_gpio h

/-- One chip with eight lines and two cells. -/
def exampleGpio : GpioTable where
  chip _ := ⟨0x84000, 8, 2, true, true, true⟩
  list := [0x85000]

/-- A get of line 3 with these flags in the device tree. -/
def exampleGet (name : List Char) (flags : Nat) : GpioCall :=
  .get ⟨0, 0, 0⟩ (some ⟨0x84000, [3, flags]⟩) 0 (some name) 0

/-- Line 3 is got as active low, asked for again while it is in use, and got again after a put; line 5
is got in between. -/
def exampleGets : List GpioCall :=
  [exampleGet ['l', 'e', 'd'] 1, exampleGet ['k', 'e', 'y'] 1,
    .get ⟨0, 0, 0⟩ (some ⟨0x84000, [5, 0]⟩) 0 (some ['i', 'r', 'q']) 0,
    .put ⟨0, 0, 0⟩ 0x85000 3, exampleGet ['k', 'e', 'y'] 1]

theorem polarity_kept_iff_example :
    Always (gpioStep exampleGpio) GpioRun.Good .start exampleGets ↔
      Meets (gpioStep exampleGpio) (fun s i => i.Clean exampleGpio s) .start exampleGets :=
  polarity_kept_iff exampleGpio rfl

/-- At the end the second consumer has line 3, and it is active low. -/
example : (exec (gpioStep exampleGpio) .start exampleGets).map (fun s =>
    (s.owned 0x85000 3, (s.lines 0x85000 3).label, (s.lines 0x85000 3).flags .activeLow)) =
      some (true, some ['k', 'e', 'y'], true) := by
  decide +kernel

/-- A line that was used before is active low for a consumer that wants it active high; and a line
that is in use as active high becomes active low when somebody else asks for it as such. -/
theorem polarity_is_left_over :
    (∃ s, exec (gpioStep exampleGpio) .start [exampleGet ['l', 'e', 'd'] 0,
          .put ⟨0, 0, 0⟩ 0x85000 3, exampleGet ['k', 'e', 'y'] 0] = some s ∧
        s.owned 0x85000 3 = true ∧ (s.lines 0x85000 3).flags .activeLow = true) ∧
      ∃ s, exec (gpioStep exampleGpio) .start [exampleGet ['l', 'e', 'd'] 0,
          exampleGet ['k', 'e', 'y'] 1] = some s ∧
        (s.lines 0x85000 3).label = some ['l', 'e', 'd'] ∧
        (s.lines 0x85000 3).flags .activeLow = true :=
  ⟨⟨_, rfl, rfl, rfl⟩, ⟨_, rfl, rfl, rfl⟩⟩

end HeavenFox.Platform
