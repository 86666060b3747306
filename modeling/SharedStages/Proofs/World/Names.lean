import SharedStages.Proofs.Text.OneLine
import SharedStages.Proofs.World.Observation

/-! Names of caches. No route leads a control character into one, so none gets into a label or a
description either, as none is in the identifier of an instance. -/

namespace SharedStages

open Text (hasControl)

theorem Config.validate_of_name {config : Config} {text : String}
    (h : config.debugName = some text) : config.validate = checkName text := by
  rw [validate, h]

theorem Config.hasControl_of_error {text : String} {fault : Fault}
    (h : checkName text = .error fault) : hasControl text = true := by
  refine eq_true_of_ne_false fun htext => ?_
  rw [checkName_eq_ok_iff.2 htext] at h
  cases h

namespace Cache

variable {H C : Type} [Ord H] {c : Cache H C} {config : Config} {text : String} {fault : Fault}

theorem rename_of_ok (h : Config.checkName text = .ok ()) :
    c.rename text = .ok { c with name := text } := by
  simp [rename, h]

theorem rename_of_error (h : Config.checkName text = .error fault) :
    c.rename text = .error fault := by
  simp [rename, h]

theorem ofConfig_of_ok (k : ℕ) (h : config.validate = .ok ()) : ofConfig config k =
    .ok { (new k : Cache H C) with
      name := config.debugName.getD ""
      observer := if config.trace then .tracing else .noop } := by
  simp [ofConfig, h]

theorem ofConfig_of_error (k : ℕ) (h : config.validate = .error fault) :
    (ofConfig config k : Except Fault (Cache H C)) = .error fault := by
  simp [ofConfig, h]

theorem hasControl_label (u : Uuids) (h : hasControl c.name = false) :
    hasControl (c.label.textWith u) = false := by
  by_cases hn : c.name = ""
  · rw [label_of_name_eq_empty hn]
    exact Label.hasControl_fallback u _
  · rw [label_of_name_ne_empty hn]
    exact h

theorem hasControl_of_rename {c' : Cache H C} (h : c.rename text = .ok c') :
    hasControl c'.name = false := by
  rw [rename_eq h]
  cases hcheck : Config.checkName text with
  | ok u => exact Config.checkName_eq_ok_iff.1 hcheck
  | error fault =>
    rw [rename_of_error hcheck] at h
    cases h

theorem hasControl_of_ofConfig {k : ℕ} (h : ofConfig config k = .ok c) :
    hasControl c.name = false := by
  cases hvalid : config.validate with
  | error fault =>
    rw [ofConfig_of_error k hvalid] at h
    cases h
  | ok u =>
    rw [ofConfig_of_ok k hvalid] at h
    cases h
    cases hname : config.debugName with
    | none => rfl
    | some text =>
      rw [Config.validate_of_name hname] at hvalid
      exact Config.checkName_eq_ok_iff.1 hvalid

end Cache

namespace World

variable {H C : Type} [Ord H] [Std.TransOrd H] [DecidableEq H] [DecidableEq C] {w : World H C}
  {name text : String} {c : Cache H C} {config : Config} {fault : Fault}

/-- No cache has a name with a control character. -/
def Clean (w : World H C) : Prop :=
  ∀ ⦃name : String⦄ ⦃c : Cache H C⦄, w.caches[name]? = some c → hasControl c.name = false

/-- A cache keeps its name, has that of another one, or has one that was checked. -/
theorem Clean.step (h : w.Clean) (s : Step (Layer H) C) : (w.step s).1.Clean := by
  intro name c' hc'
  have hname {other : String} {c : Cache H C} (hc : w.caches[other]? = some c)
      (heq : c'.name = c.name) : hasControl c'.name = false := by
    rw [heq]
    exact h hc
  cases origin hc' with
  | kept hc => exact hname hc rfl
  | made => rfl
  | configured hc => exact Cache.hasControl_of_ofConfig hc
  | observed hc => exact hname hc rfl
  | renamed hc hr => exact Cache.hasControl_of_rename hr
  | copied hd => exact hname hd rfl
  | overwritten hc hd => exact hname hd rfl
  | swapped hc hd => exact hname hd rfl
  | swappedBack hc hd => exact hname hc rfl
  | performed hs hc hl => exact hname hc rfl
  | interrupted hs hc hl => exact hname hc rfl

theorem clean_run (steps : List (Step (Layer H) C)) : (empty.run steps).1.Clean := by
  apply run_induction (P := Clean)
  · exact fun w s h => h.step s
  · intro name c hc
    simp [empty] at hc

theorem step_rename_of_ok (hc : w.caches[name]? = some c) (h : Config.checkName text = .ok ()) :
    w.step (.rename name text) =
      { w with caches := w.caches.insert name { c with name := text } }.reply .accepted := by
  simp only [step, rename, hc, Cache.rename_of_ok h]

theorem step_rename_of_error (hc : w.caches[name]? = some c)
    (h : Config.checkName text = .error fault) :
    w.step (.rename name text) = w.reply (.refused fault) := by
  simp only [step, rename, hc, Cache.rename_of_error h]

theorem step_configure_of_ok (name : String) (h : config.validate = .ok ()) :
    w.step (.configure name config) =
      w.install name { (Cache.new w.instances : Cache H C) with
        name := config.debugName.getD ""
        observer := if config.trace then .tracing else .noop } [] .accepted := by
  simp only [step, configure, Cache.ofConfig_of_ok _ h]

theorem step_configure_of_error (name : String) (h : config.validate = .error fault) :
    w.step (.configure name config) = w.reply (.refused fault) := by
  simp only [step, configure, Cache.ofConfig_of_error _ h]

theorem step_of_refused {s : Step (Layer H) C} (h : (w.step s).2.answer = .refused fault) :
    (w.step s).1 = w := by
  have ht := step_transition w s
  generalize w.step s = x at ht h
  cases ht with
  | idle => rfl
  | _ => cases h

/-- What the names in a world, the texts made of them and the checks of new ones are like, whatever
the identifiers of instances and the classes of characters are. -/
structure NamesGuarded (g : Text.Glyphs) (u : Uuids) (w : World H C) : Prop where
  shown {name : String} {c : Cache H C} : w.caches[name]? = some c →
    hasControl c.name = false ∧ hasControl (c.label.textWith u) = false ∧
      hasControl (Cache.describeWith g u c.label c.store.size) = false
  delivered {s : Step (Layer H) C} {d : Delivery} : d ∈ (w.step s).2.deliveries →
    hasControl (d.label.textWith u) = false
  renamed {name : String} {c : Cache H C} (text : String) : w.caches[name]? = some c →
    hasControl text = false ∧ (w.step (.rename name text)).2.answer = .accepted ∧
        (w.step (.rename name text)).1.caches = w.caches.insert name { c with name := text } ∨
      hasControl text = true ∧ ∃ fault, (w.step (.rename name text)).2.answer = .refused fault
  configured (name : String) {config : Config} {text : String} : config.debugName = some text →
    hasControl text = false ∧ config.validate = .ok () ∧
        (w.step (.configure name config)).2.answer = .accepted ∨
      hasControl text = true ∧ (∃ fault, config.validate = .error fault) ∧
        ∃ fault, (w.step (.configure name config)).2.answer = .refused fault
  refused {s : Step (Layer H) C} {fault : Fault} :
    (w.step s).2.answer = .refused fault → (w.step s).1 = w

/-- Whatever the steps were, no cache has a name with a control character, and it cannot be given
one. A refusal leaves everything as it was. -/
theorem names_guarded (g : Text.Glyphs) (u : Uuids) (steps : List (Step (Layer H) C)) :
    NamesGuarded g u (empty.run steps).1 := by
  have hclean := clean_run steps
  generalize (empty.run steps).1 = w at hclean
  constructor
  case shown =>
    intro name c hc
    exact ⟨hclean hc, Cache.hasControl_label u (hclean hc), Cache.hasControl_describeWith g u _ _⟩
  case delivered =>
    intro s d hd
    obtain ⟨name, op, c, -, hc, -, hlabel⟩ := mem_deliveries hd
    rw [hlabel]
    exact Cache.hasControl_label u (hclean hc)
  case renamed =>
    intro name c text hc
    cases hcheck : Config.checkName text with
    | ok u =>
      rw [step_rename_of_ok hc hcheck]
      exact .inl ⟨Config.checkName_eq_ok_iff.1 hcheck, rfl, rfl⟩
    | error fault =>
      rw [step_rename_of_error hc hcheck]
      exact .inr ⟨Config.hasControl_of_error hcheck, fault, rfl⟩
  case configured =>
    intro name config text hname
    have hvalid := Config.validate_of_name hname
    cases hcheck : Config.checkName text with
    | ok u =>
      rw [hcheck] at hvalid
      rw [step_configure_of_ok name hvalid]
      exact .inl ⟨Config.checkName_eq_ok_iff.1 hcheck, hvalid, rfl⟩
    | error fault =>
      rw [hcheck] at hvalid
      rw [step_configure_of_error name hvalid]
      exact .inr ⟨Config.hasControl_of_error hcheck, ⟨fault, hvalid⟩, fault, rfl⟩
  case refused => exact step_of_refused

/-- A cache is configured with a name, which then goes over to another cache. -/
def namedRun : List (Step (Layer ℕ) ℕ) :=
  [.new "a", .configure "b" ⟨some "s", true⟩, .swap "a" "b"]

theorem names_guarded_namedRun : ∃ c d : Cache ℕ ℕ,
    (empty.run namedRun).1.caches["a"]? = some c ∧ c.name = "s" ∧
    (empty.run namedRun).1.caches["b"]? = some d ∧
    d.label.textWith .ofOneMoment = "stage-cache-01890a5d-ac96-774b-bcce-100000000001" ∧
    hasControl (d.label.textWith .ofOneMoment) = false ∧ hasControl "x\ty" = true ∧
    ∃ fault, ((empty.run namedRun).1.step (.rename "a" "x\ty")).2.answer = .refused fault ∧
      ((empty.run namedRun).1.step (.rename "a" "x\ty")).1 = (empty.run namedRun).1 := by
  have hsome : ((empty.run namedRun).1.caches["a"]?.any (·.name = "s")) = true := by cbv
  have hother : ((empty.run namedRun).1.caches["b"]?.any (·.label = .fallback 1)) = true := by cbv
  obtain ⟨c, hc, hname⟩ := (Option.any_eq_true _ _).1 hsome
  obtain ⟨d, hd, hlabel⟩ := (Option.any_eq_true _ _).1 hother
  have h := names_guarded Text.glyphs .ofOneMoment namedRun
  have htext : hasControl "x\ty" = true := by decide
  rcases h.renamed "x\ty" hc with ⟨hclean, -⟩ | ⟨-, fault, hrefused⟩
  · rw [htext] at hclean
    cases hclean
  · refine ⟨c, d, hc, of_decide_eq_true hname, hd, ?_, (h.shown hd).2.1, htext, fault, hrefused,
      h.refused hrefused⟩
    rw [of_decide_eq_true hlabel]
    rfl

end World

end SharedStages
