import SchemaDump.CommandLine.Options
import Mathlib.Data.List.Basic

/-! Where the values of options come from: what is set by an argument, or by the one after it, ends
that argument. -/
namespace SchemaDump.CommandLine

variable {argument v s : Text} {arguments : List Text} {a : Argument} {sw : Switch} {isShort : Bool}
  {value : Option Text} {o o' : Options} {settings : List Setting} {ss : Settings}
  {es : List (Text × Argument)} {extra extra' : List Text} {P : Text → Prop}

namespace Argument

/-- The value in a switch, if there is one, ends the argument. -/
def EndsIn (a : Argument) (argument : Text) : Prop :=
  ∀ s isShort v, a = .switch s isShort (some v) → v <:+ argument

theorem endsIn_none (s : Switch) (isShort : Bool) (argument : Text) :
    EndsIn (.switch s isShort none) argument := by
  intro s' isShort' v h
  simp at h

theorem endsIn_some (s : Switch) (isShort : Bool) (h : v <:+ argument) :
    EndsIn (.switch s isShort (some v)) argument := by
  intro s' isShort' v' h'
  simp only [switch.injEq, Option.some.injEq] at h'
  exact h'.2.2 ▸ h

theorem endsIn_plain (argument : Text) : EndsIn .plain argument := by
  intro s isShort v h
  cases h

theorem endsIn_unknown (argument : Text) : EndsIn .unknown argument := by
  intro s isShort v h
  cases h

theorem isSuffix_of_cutValue (h : (cutValue s).2 = some v) : v <:+ s := by
  rw [cutValue] at h
  split at h
  · cases h
  · next c value hs =>
    cases h
    have hdrop : c :: v <:+ s := hs ▸ List.dropWhile_suffix _
    exact (List.suffix_cons c v).trans hdrop

theorem endsIn_cutValue (s : Switch) (isShort : Bool) (argument : Text) :
    EndsIn (.switch s isShort (cutValue argument).2) argument := by
  cases h : (cutValue argument).2 with
  | none => exact endsIn_none s isShort argument
  | some v => exact endsIn_some s isShort (isSuffix_of_cutValue h)

theorem endsIn_of_mem_candidates (h : (sw, a) ∈ candidates argument) : a.EndsIn argument := by
  unfold candidates at h
  split at h
  · obtain ⟨s, -, he⟩ := List.mem_map.mp h
    cases he
    exact endsIn_cutValue _ _ _
  · next c value _ =>
    obtain ⟨s, -, he⟩ := List.mem_map.mp h
    cases he
    exact endsIn_some _ _ ⟨['-', c], rfl⟩
  · cases h

theorem endsIn_of_ofDashed (h : ofDashed argument = .ok a) : a.EndsIn argument := by
  rw [ofDashed] at h
  split at h
  · cases h
    exact endsIn_none _ _ _
  · dsimp only at h
    split at h
    · cases h
      exact endsIn_cutValue _ _ _
    · split at h
      · next s found hc =>
        cases h
        exact endsIn_of_mem_candidates (hc ▸ List.mem_singleton_self (s, a))
      · cases h
        split
        · exact endsIn_plain argument
        · exact endsIn_unknown argument
      · cases h

theorem endsIn_of_ofText (h : ofText argument = .ok a) : a.EndsIn argument := by
  unfold ofText at h
  split at h
  · exact endsIn_of_ofDashed h
  · cases h
    exact endsIn_plain argument

theorem endsIn_of_ofTexts (h : ofTexts arguments = .ok es) :
    ∀ e ∈ es, e.1 ∈ arguments ∧ e.2.EndsIn e.1 := by
  induction arguments generalizing es with
  | nil =>
    cases h
    simp
  | cons argument arguments ih =>
    rw [ofTexts] at h
    split at h
    · cases h
      intro e he
      obtain rfl | he := List.mem_cons.mp he
      · exact ⟨List.mem_cons_self, endsIn_unknown _⟩
      · obtain ⟨text, htext, rfl⟩ := List.mem_map.mp he
        exact ⟨List.mem_cons_of_mem _ htext, endsIn_plain _⟩
    · cases hfirst : ofText argument with
      | error e => simp [hfirst, bind, Except.bind] at h
      | ok first =>
        cases hrest : ofTexts arguments with
        | error e => simp [hfirst, hrest, bind, Except.bind] at h
        | ok rest =>
          simp only [hfirst, hrest, bind, Except.bind, pure, Except.pure, Except.ok.injEq] at h
          subst h
          intro e he
          obtain rfl | he := List.mem_cons.mp he
          · exact ⟨List.mem_cons_self, endsIn_of_ofText hfirst⟩
          · obtain ⟨hmem, hends⟩ := ih hrest e he
            exact ⟨List.mem_cons_of_mem _ hmem, hends⟩

end Argument

namespace Settings

theorem kept_isSuffix (v : Text) : kept v <:+ v := by
  rw [kept]
  split
  · exact List.nil_suffix
  · exact List.suffix_rfl

theorem isSuffix_of_ofLetters (h : ofLetters sw s = .ok ss) :
    ∀ setting ∈ ss.settings, setting.value <:+ s := by
  induction s generalizing sw ss with
  | nil =>
    cases h
    simp
  | cons c letters ih =>
    have htail {v : Text} (hv : v <:+ letters) : v <:+ c :: letters :=
      hv.trans (List.suffix_cons c letters)
    rw [ofLetters] at h
    split at h
    · cases h
    · split at h
      · split at h
        · cases h
          simp
        · cases h
          intro setting hm
          simp only [List.mem_cons, List.not_mem_nil, or_false] at hm
          obtain rfl | rfl := hm
          · exact List.nil_suffix
          · exact htail (kept_isSuffix letters)
      · split at h
        · next more hmore =>
          cases h
          intro setting hm
          obtain rfl | hm := List.mem_cons.mp hm
          · exact List.nil_suffix
          · exact htail (ih hmore setting hm)
        · cases h

/-- What a switch sets ends the argument that its value ends. -/
theorem isSuffix_of_ofSwitch (h : ofSwitch sw isShort value = .ok ss)
    (hends : (Argument.switch sw isShort value).EndsIn argument) :
    ∀ setting ∈ ss.settings, setting.value <:+ argument := by
  unfold ofSwitch at h
  split at h
  · next v _ =>
    cases h
    intro setting hm
    obtain rfl := List.mem_singleton.mp hm
    exact (kept_isSuffix v).trans (hends _ _ v rfl)
  · cases h
    simp
  · cases h
    simp
  · next v _ =>
    split at h
    · exact fun setting hm => (isSuffix_of_ofLetters h setting hm).trans (hends _ _ v rfl)
    · cases h

end Settings

namespace Options

/-- Both values of the options pass `P`. -/
def Values (P : Text → Prop) (o : Options) : Prop := P o.file ∧ P o.directory

theorem Values.set (ho : o.Values P) (hs : ∀ setting ∈ settings, P setting.value)
    (h : o.set settings = .ok o') : o'.Values P := by
  induction settings generalizing o with
  | nil =>
    cases h
    exact ho
  | cons setting settings ih =>
    obtain ⟨hsetting, hrest⟩ := List.forall_mem_cons.mp hs
    obtain ⟨_ | _ | _ | _ | _, value⟩ := setting <;> rw [Options.set] at h
    case help => cases h
    case file =>
      refine ih ?_ hrest h
      exact ⟨hsetting, ho.2⟩
    case directory =>
      refine ih ?_ hrest h
      exact ⟨ho.1, hsetting⟩
    case dryRun =>
      refine ih ?_ hrest h
      exact ho
    case verbose =>
      refine ih ?_ hrest h
      exact ho

/-- Reading arguments keeps to values that pass `P`, if the ends of arguments do. -/
theorem Values.read (ho : o.Values P)
    (hes : ∀ e ∈ es, (∀ v, v <:+ e.1 → P v) ∧ e.2.EndsIn e.1)
    (h : Options.read o extra es = .ok (o', extra')) : o'.Values P := by
  induction o, extra, es using Options.read.induct with
  | case1 o extra =>
    cases h
    exact ho
  | case2 o extra argument s isShort value rest e hs =>
    rw [Options.read, hs] at h
    cases h
  | case3 o extra argument s isShort value rest settings hs stop hset =>
    simp only [Options.read, hs, hset] at h
    cases h
  | case4 o extra argument s isShort value rest settings hs o₁ hset ih =>
    -- a switch that has all it takes
    obtain ⟨⟨hpass, hends⟩, hrest⟩ := List.forall_mem_cons.mp hes
    simp only [Options.read, hs, hset] at h
    refine ih (ho.set (fun setting hm => hpass _ ?_) hset) hrest h
    exact Settings.isSuffix_of_ofSwitch hs hends setting hm
  | case5 o extra argument s isShort value settings t hs next rest stop hset =>
    simp only [Options.read, hs, hset] at h
    cases h
  | case6 o extra argument s isShort value settings t hs next rest o₁ hset ih =>
    -- a switch whose value is the next argument
    obtain ⟨⟨hpass, hends⟩, hrest⟩ := List.forall_mem_cons.mp hes
    obtain ⟨⟨hnext, -⟩, hrest⟩ := List.forall_mem_cons.mp hrest
    simp only [Options.read, hs, hset] at h
    refine ih (ho.set (fun setting hm => ?_) hset) hrest h
    obtain hm | hm := List.mem_append.mp hm
    · exact hpass _ (Settings.isSuffix_of_ofSwitch hs hends setting hm)
    · rw [List.mem_singleton.mp hm]
      exact hnext next List.suffix_rfl
  | case7 o extra argument s isShort value rest settings t hs hrest =>
    rw [Options.read, hs] at h
    simp only at h
    cases h
  | case8 o extra argument a rest ha ih =>
    rw [Options.read.eq_3 _ _ _ _ _ ha] at h
    exact ih ho (List.forall_mem_cons.mp hes).2 h

/-- A character that is in no argument is in no value either, if it is not in the usual name of the
folder. -/
theorem not_mem_of_parse {c : Char} (h : parse arguments = .ok o)
    (hc : ∀ argument ∈ arguments, c ∉ argument) (hdefault : c ∉ "output".toList) :
    c ∉ o.file ∧ c ∉ o.directory := by
  rw [parse] at h
  split at h
  · cases h
  · next es hes =>
    split at h
    · cases h
    · next o' extra hread =>
      have hvalues : o'.Values (c ∉ ·) := by
        refine Values.read ⟨List.not_mem_nil, hdefault⟩ (fun e he => ?_) hread
        obtain ⟨hmem, hends⟩ := Argument.endsIn_of_ofTexts hes e he
        exact ⟨fun v hv hcv => hc e.1 hmem (hv.subset hcv), hends⟩
      split at h
      · cases h
      · split at h
        · cases h
        · split at h <;> cases h
          exact hvalues

end Options
end SchemaDump.CommandLine
