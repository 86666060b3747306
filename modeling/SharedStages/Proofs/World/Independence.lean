import SharedStages.Proofs.Cache.RenamedStore
import SharedStages.Proofs.World.Script

/-! Caches do not notice each other. Whatever is asked of the other caches in between, the requests
to one cache have the outcome that they have on their own, but for the names of the ids that are
minted meanwhile. -/

namespace SharedStages

variable {H C : Type} [Ord H] [Std.TransOrd H]

/-- The caches differ in the names of their ids only. -/
structure Cache.Renamed (f : StageId → StageId) (c d : Cache H C) : Prop where
  store : c.store.Renamed f d.store
  name : d.name = c.name
  instanceNumber : d.instanceNumber = c.instanceNumber
  observer : d.observer = c.observer

theorem Cache.Renamed.label {f : StageId → StageId} {c d : Cache H C} (h : c.Renamed f d) :
    d.label = c.label := by
  rw [Cache.label, h.name, h.instanceNumber, Cache.label]

theorem Cache.Renamed.deliver {f : StageId → StageId} {c d : Cache H C} (h : c.Renamed f d)
    (g : StageId → StageId) (e : Event) :
    d.deliver (e.mapId g) = (c.deliver e).map (·.mapId g) := by
  rw [Cache.deliver, h.observer, h.label, Cache.deliver]
  split_ifs <;> rfl

/-- All ids in the report are from the first `n`, or invalid. -/
structure Report.Settled (r : Report H C) (n : ℕ) : Prop where
  answer : ∀ i ∈ r.answer.id?, i.toInt ≤ n
  deliveries : ∀ d ∈ r.deliveries, ∀ i ∈ d.event.id?, i.toInt ≤ n

namespace World

/-- The two worlds agree in what the caller holds, and in the cache of that name but for the ids
that were minted since the first `base`. No layer is armed in them. -/
structure Parallel (f : StageId → StageId) (name : String) (base : ℕ) (v w : World H C) : Prop where
  renames : Renames f base v.minted w.minted
  held : w.held = v.held
  unarmed : v.armed = ∅ ∧ w.armed = ∅
  sound : v.Sound ∧ w.Sound
  cache : Option.Rel (Cache.Renamed f) v.caches[name]? w.caches[name]?

/-- The outcomes of a request in two worlds agree up to a renaming that has the ids minted by it. -/
structure Matches (f : StageId → StageId) (name : String) (base : ℕ)
    (x y : World H C × Report H C) : Prop where
  worlds : Parallel f name base x.1 y.1
  answer : y.2.answer = x.2.answer.mapId f
  deliveries : y.2.deliveries = x.2.deliveries.map (·.mapId f)
  settled : x.2.Settled x.1.minted

theorem Sound.insert {w w' : World H C} (hw : w.Sound) {name : String} {c : Cache H C}
    (hcaches : w'.caches = w.caches.insert name c) (hm : w.minted ≤ w'.minted)
    (hc : c.store.Consistent w'.minted) : w'.Sound := by
  intro other d hd
  rw [hcaches] at hd
  rcases eq_or_of_getElem?_insert hd with ⟨-, rfl⟩ | hd
  · exact hc
  · exact (hw hd).mono hm

theorem find?_armed {w : World H C} (ha : w.armed = ∅) (ls : List (Layer H)) :
    ls.find? (w.armed.contains ·) = none := by
  simp [ha]

namespace Parallel

variable {f : StageId → StageId} {name : String} {base : ℕ} {v w : World H C}

/-- The name has caches that differ in their ids, or none in either world. -/
theorem find (h : Parallel f name base v w) :
    v.caches[name]? = none ∧ w.caches[name]? = none ∨
    ∃ c d, v.caches[name]? = some c ∧ w.caches[name]? = some d ∧ c.Renamed f d := by
  have hrel := h.cache
  generalize v.caches[name]? = a at hrel ⊢
  generalize w.caches[name]? = b at hrel ⊢
  cases hrel with
  | none => exact .inl ⟨rfl, rfl⟩
  | some hcd => exact .inr ⟨_, _, rfl, rfl, hcd⟩

/-- An answer without an id, by which nothing changes. -/
theorem reply (h : Parallel f name base v w) {answer : Answer H C} (hid : answer.id? = none)
    (hanswer : answer.mapId f = answer) :
    Matches f name base (v.reply answer) (w.reply answer) where
  worlds := h
  answer := hanswer.symm
  deliveries := rfl
  settled := ⟨by simp [World.reply, hid], by simp [World.reply]⟩

theorem question (h : Parallel f name base v w) {q : Question Handle}
    (hq : ∀ i ∈ q.id?, i.toInt ≤ v.minted) :
    Matches f name base (v.ask name q) (w.ask name (q.mapId f)) := by
  unfold World.ask
  rcases h.find with ⟨hv, hw⟩ | ⟨c, d, hv, hw, hcd⟩
  · rw [hv, hw]
    exact h.reply rfl rfl
  · rw [hv, hw, h.held, Question.resolve_mapId]
    cases hp : q.resolve (v.held[·]?) with
    | none => exact h.reply rfl rfl
    | some p =>
      have hc := h.sound.1 hv
      have hrows : ∀ e ∈ c.store.rows, e.id.toInt ≤ v.minted :=
        fun e he => (hc.issued (hc.mem_rows.1 he)).2
      have hid : ∀ i ∈ p.id?, i.toInt ≤ v.minted := Question.id?_resolve hp ▸ hq
      have hask : d.ask (p.mapId f) = (c.ask p).mapId f := by
        rw [← Roll.ask_rows (h.sound.2 hw) w.minted, ← Roll.ask_rows hc v.minted, hcd.store.rows,
          hcd.name, hcd.label]
        exact Roll.ask_mapId h.renames hrows hid _ _
      refine ⟨h, congrArg Answer.finding hask, rfl, fun i hi => ?_, fun _ => nofun⟩
      change i ∈ (c.ask p).id? at hi
      rw [← Roll.ask_rows hc v.minted] at hi
      exact Roll.id?_ask_le hrows hi

/-- The caches of the name change, and maybe the renaming. -/
theorem update (h : Parallel f name base v w) {g : StageId → StageId} {v' w' : World H C}
    (hg : Renames g base v'.minted w'.minted)
    (hminted : v.minted ≤ v'.minted ∧ w.minted ≤ w'.minted) {c d : Cache H C}
    (hcd : c.Renamed g d) (hv : v'.caches = v.caches.insert name c)
    (hw : w'.caches = w.caches.insert name d) (hc : c.store.Consistent v'.minted)
    (hd : d.store.Consistent w'.minted) (hheld : v'.held = v.held ∧ w'.held = w.held)
    (harmed : v'.armed = v.armed ∧ w'.armed = w.armed) : Parallel g name base v' w' where
  renames := hg
  held := by rw [hheld.1, hheld.2, h.held]
  unarmed := by rw [harmed.1, harmed.2]; exact h.unarmed
  sound := ⟨h.sound.1.insert hv hminted.1 hc, h.sound.2.insert hw hminted.2 hd⟩
  cache := by
    rw [hv, hw, Std.ExtTreeMap.getElem?_insert_self, Std.ExtTreeMap.getElem?_insert_self]
    exact .some hcd

theorem rename (h : Parallel f name base v w) (text : String) :
    Matches f name base (v.rename name text) (w.rename name text) := by
  unfold World.rename
  rcases h.find with ⟨hv, hw⟩ | ⟨c, d, hv, hw, hcd⟩
  · rw [hv, hw]
    exact h.reply rfl rfl
  · rw [hv, hw]
    simp only [Cache.rename]
    cases Config.checkName text with
    | error fault => exact h.reply rfl rfl
    | ok u =>
      have hcd' : Cache.Renamed f { c with name := text } { d with name := text } :=
        ⟨hcd.store, rfl, hcd.instanceNumber, hcd.observer⟩
      refine (h.update ?_ ?_ hcd' rfl rfl ?_ ?_ ?_ ?_).reply rfl rfl
      · exact h.renames
      · exact ⟨le_rfl, le_rfl⟩
      · have hc := h.sound.1 hv
        exact hc
      · have hd := h.sound.2 hw
        exact hd
      · exact ⟨rfl, rfl⟩
      · exact ⟨rfl, rfl⟩

end Parallel

variable [DecidableEq H] [DecidableEq C]

/-- A request concerns its cache, and nothing else that counts here. -/
theorem step_request {w : World H C} (ha : w.armed = ∅) (r : Request H C) (cache : String) :
    (w.step (r.step cache)).1.armed = ∅ ∧ (w.step (r.step cache)).1.held = w.held ∧
      ∀ name, cache ≠ name → (w.step (r.step cache)).1.caches[name]? = w.caches[name]? := by
  have hother {name : String} (hne : cache ≠ name) (c : Cache H C) :
      (w.caches.insert cache c)[name]? = w.caches[name]? := by
    rw [Std.ExtTreeMap.getElem?_insert, if_neg (by simpa using hne)]
  have ht := step_transition w (r.step cache)
  generalize w.step (r.step cache) = x at ht
  cases r with
  | operation op =>
    cases ht with
    | idle hne hl => exact ⟨ha, rfl, fun _ _ => rfl⟩
    | perform hs hc hl =>
      obtain ⟨p, -, hp⟩ := Option.map_eq_some_iff.1 hs
      cases hp
      exact ⟨ha, rfl, fun _ hne => hother hne _⟩
    | performTrips hs hc hl =>
      rw [find?_armed ha] at hl
      cases hl
  | question q =>
    cases ht with
    | idle hne hl => exact ⟨ha, rfl, fun _ _ => rfl⟩
    | perform hs hc hl => cases hs
    | performTrips hs hc hl => cases hs
  | rename text =>
    cases ht with
    | idle hne hl => exact ⟨ha, rfl, fun _ _ => rfl⟩
    | rename hc hr => exact ⟨ha, rfl, fun _ hne => hother hne _⟩
    | perform hs hc hl => cases hs
    | performTrips hs hc hl => cases hs

variable [Std.LawfulEqOrd H]

namespace Parallel

variable {f : StageId → StageId} {name : String} {base : ℕ} {v w : World H C}

/-- A request to another cache makes no difference here. -/
theorem other (h : Parallel f name base v w) {cache : String} (hne : cache ≠ name)
    (r : Request H C) (hm : (w.step (r.step cache)).1.minted < 2 ^ 63 - 1) :
    Parallel f name base v (w.step (r.step cache)).1 := by
  obtain ⟨harmed, hheld, hcaches⟩ := step_request h.unarmed.2 r cache
  refine ⟨h.renames.mono_right (minted_le_step w _), hheld.trans h.held, ⟨h.unarmed.1, harmed⟩,
    ⟨h.sound.1, h.sound.2.step _ hm⟩, ?_⟩
  rw [hcaches name hne]
  exact h.cache

theorem operation (h : Parallel f name base v w) {op : Operation Handle (Layer H) C}
    (hop : ∀ i ∈ op.id?, i.toInt ≤ v.minted)
    (hm : (w.perform name (op.mapId f)).1.minted < 2 ^ 63 - 1) :
    ∃ g, (∀ i : StageId, i.toInt ≤ v.minted → g i = f i) ∧
      Matches g name base (v.perform name op) (w.perform name (op.mapId f)) := by
  unfold World.perform at hm ⊢
  rcases h.find with ⟨hv, hw⟩ | ⟨c, d, hv, hw, hcd⟩
  · rw [hv, hw]
    exact ⟨f, fun _ _ => rfl, h.reply rfl rfl⟩
  rw [hw, h.held, Operation.resolve_mapId] at hm
  rw [hv, hw, h.held, Operation.resolve_mapId]
  cases hp : op.resolve (v.held[·]?) with
  | none => exact ⟨f, fun _ _ => rfl, h.reply rfl rfl⟩
  | some p =>
    simp only [hp, Option.map_some, performOn_eq,
      find?_armed h.unarmed.1, find?_armed h.unarmed.2] at hm ⊢
    have hspent := hcd.store.spent p
    have hm' : w.minted + p.spent c.store < 2 ^ 63 - 1 := by rw [← hspent]; exact hm
    have hid : ∀ i ∈ p.id?, i.toInt ≤ v.minted := Operation.id?_resolve hp ▸ hop
    have hle := h.renames.le
    obtain ⟨g, hagree, hg, hstore, hreply, hevent⟩ :=
      Operation.renamed (h.sound.1 hv) (h.sound.2 hw) hcd.store h.renames hid hm'
    have hsettled := Operation.settled (h.sound.1 hv) hid (by omega)
    refine ⟨g, hagree, ?_, ?_, ?_, hsettled.reply, ?_⟩
    · have hnew : Cache.Renamed g { c with store := p.after c.store v.minted }
          { d with store := (p.mapId f).after d.store w.minted } :=
        ⟨hstore, hcd.name, hcd.instanceNumber, hcd.observer⟩
      refine h.update ?_ ?_ hnew (by rfl) (by rfl) ?_ ?_ ?_ ?_
      · change Renames g base (v.minted + p.spent c.store) (w.minted + (p.mapId f).spent d.store)
        rw [hspent]
        exact hg
      · exact ⟨Nat.le_add_right _ _, Nat.le_add_right _ _⟩
      · exact p.consistent_after (h.sound.1 hv) (by omega)
      · exact (p.mapId f).consistent_after (h.sound.2 hw) hm
      · exact ⟨rfl, rfl⟩
      · exact ⟨rfl, rfl⟩
    · exact congrArg Answer.reply hreply
    · change d.deliver _ = (c.deliver _).map _
      rw [hevent]
      exact hcd.deliver g _
    · intro e he
      change e ∈ c.deliver _ at he
      rw [Cache.deliver] at he
      split_ifs at he
      · rw [List.mem_singleton.1 he]
        exact hsettled.event
      · cases he

/-- A request has the same outcome in both worlds, when the ids it names are renamed. -/
theorem request (h : Parallel f name base v w) {r : Request H C}
    (hr : ∀ i ∈ r.id?, i.toInt ≤ v.minted)
    (hm : (w.step ((r.mapId f).step name)).1.minted < 2 ^ 63 - 1) :
    ∃ g, (∀ i : StageId, i.toInt ≤ v.minted → g i = f i) ∧
      Matches g name base (v.step (r.step name)) (w.step ((r.mapId f).step name)) := by
  cases r with
  | operation op => exact h.operation hr hm
  | question q => exact ⟨f, fun _ _ => rfl, h.question hr⟩
  | rename text => exact ⟨f, fun _ _ => rfl, h.rename text⟩

end Parallel

/-- The requests to one cache have the same outcomes, be there others in between or not. -/
theorem Parallel.follow {f : StageId → StageId} {name : String} {base : ℕ} {v w : World H C}
    (h : Parallel f name base v w) (script : List (Line H C))
    (hknown : ∀ l ∈ script, l.cache = name → l.earlier = none →
      ∀ i ∈ l.request.id?, i.toInt ≤ base)
    {past past' : List (String × Option StageId)} (hpast : Recalls f name v.minted past past')
    (hm : (w.follow past' script).1.minted < 2 ^ 63 - 1) :
    ∃ g, (∀ i : StageId, i.toInt ≤ v.minted → g i = f i) ∧
      Parallel g name base (v.follow past (script.filter (·.cache = name))).1
        (w.follow past' script).1 ∧
      ((w.follow past' script).2.filter (·.1 = name)).map (fun p => (p.2.answer, p.2.deliveries)) =
        (v.follow past (script.filter (·.cache = name))).2.map
          fun p => (p.2.answer.mapId g, p.2.deliveries.map (·.mapId g)) := by
  induction script generalizing f v w past past' with
  | nil => exact ⟨f, fun _ _ => rfl, h, rfl⟩
  | cons l ls ih =>
    have hknown' : ∀ x ∈ ls, x.cache = name → x.earlier = none →
        ∀ i ∈ x.request.id?, i.toInt ≤ base := fun x hx => hknown x (List.mem_cons_of_mem _ hx)
    have hm' : (w.step ((l.filled past').step l.cache)).1.minted < 2 ^ 63 - 1 :=
      (minted_le_follow _ _ ls).trans_lt hm
    rw [follow_cons] at hm
    by_cases hl : l.cache = name
    · subst hl
      obtain ⟨hfill, hid⟩ := hpast.filled h.renames rfl (hknown l List.mem_cons_self rfl)
      obtain ⟨f', hf', hstep⟩ := h.request hid (hfill ▸ hm')
      rw [← hfill] at hstep
      have hle := minted_le_step v ((l.filled past).step l.cache)
      rw [List.filter_cons_of_pos (by simp), follow_cons, follow_cons]
      generalize v.step ((l.filled past).step l.cache) = x at hstep hle ⊢
      generalize w.step ((l.filled past').step l.cache) = y at hm hstep ⊢
      have hreturned : y.2.answer.id? = x.2.answer.id?.map f' := by
        rw [hstep.answer, Answer.id?_mapId]
      have hpast' := hpast.concat hf' hle hstep.settled.answer hreturned
      obtain ⟨g, hg, hworlds, hreports⟩ := ih hstep.worlds hknown' hpast' hm
      -- The names in the first report are final, since its ids are known by now.
      have hanswer : x.2.answer.mapId f' = x.2.answer.mapId g :=
        Answer.mapId_congr fun i hi => (hg i (hstep.settled.answer i hi)).symm
      have hdeliveries : x.2.deliveries.map (·.mapId f') = x.2.deliveries.map (·.mapId g) := by
        apply List.map_congr_left
        intro d hd
        have hevent : d.event.mapId f' = d.event.mapId g :=
          Event.mapId_congr fun i hi => (hg i (hstep.settled.deliveries d hd i hi)).symm
        rw [Delivery.mapId, hevent, Delivery.mapId]
      refine ⟨g, fun i hi => ?_, hworlds, ?_⟩
      · rw [hg i (hi.trans (by exact_mod_cast hle)), hf' i hi]
      · rw [List.filter_cons_of_pos (by simp), List.map_cons, List.map_cons, hreports,
          hstep.answer, hstep.deliveries, hanswer, hdeliveries]
    · have hother := h.other hl (l.filled past') hm'
      rw [List.filter_cons_of_neg (by simpa using hl), follow_cons]
      generalize w.step ((l.filled past').step l.cache) = y at hm hother ⊢
      obtain ⟨g, hg, hworlds, hreports⟩ := ih hother hknown' (hpast.other hl y.2.answer.id?) hm
      refine ⟨g, hg, hworlds, ?_⟩
      rw [List.filter_cons_of_neg (by simpa using hl)]
      exact hreports

omit [DecidableEq C] [Std.LawfulEqOrd H] in
/-- A world is parallel to itself. -/
theorem Parallel.refl {w : World H C} (ha : w.armed = ∅) (hw : w.Sound) (name : String) :
    Parallel id name w.minted w w where
  renames := .refl _
  held := rfl
  unarmed := ⟨ha, ha⟩
  sound := ⟨hw, hw⟩
  cache := by
    cases hc : w.caches[name]? with
    | none => exact .none
    | some c =>
      refine .some ⟨.of_rows (hw hc) (hw hc) ?_, rfl, rfl, rfl⟩
      exact (List.map_id c.store.rows).symm

/-- In every world that a run led to, with layers that do not trip: whatever is asked of the other
caches in between, the answers to the requests to one cache, the events they are reported by, and
what they leave of the cache are the same as without, under other names for the ids that are minted
on the way. The order of the ids is kept. A request names ids that were minted before, or are
invalid, or were returned to an earlier request to the same cache; the script does not use up the
ids. -/
theorem caches_independent (steps : List (Step (Layer H) C)) {w : World H C}
    (hw : w = (empty.run steps).1) (ha : w.armed = ∅) (script : List (Line H C)) (name : String)
    (hknown : ∀ l ∈ script, l.cache = name → l.earlier = none →
      ∀ i ∈ l.request.id?, i.toInt ≤ w.minted)
    (hm : (w.follow [] script).1.minted < 2 ^ 63 - 1) :
    ∃ f : StageId → StageId,
      (∀ i : StageId, i.toInt ≤ w.minted → f i = i) ∧
      (∀ i j : StageId, i < j →
        j.toInt ≤ (w.follow [] (script.filter (·.cache = name))).1.minted → f i < f j) ∧
      ((w.follow [] script).2.filter (·.1 = name)).map (fun p => (p.2.answer, p.2.deliveries)) =
        (w.follow [] (script.filter (·.cache = name))).2.map
          (fun p => (p.2.answer.mapId f, p.2.deliveries.map (·.mapId f))) ∧
      Option.Rel (Cache.Renamed f) (w.follow [] (script.filter (·.cache = name))).1.caches[name]?
        (w.follow [] script).1.caches[name]? := by
  have hw' : w.minted < 2 ^ 63 - 1 := (minted_le_follow w [] script).trans_lt hm
  have hsound : w.Sound := hw ▸ sound_empty.run steps (hw ▸ hw')
  have hpast : Recalls id name w.minted [] [] := ⟨rfl, nofun⟩
  obtain ⟨f, hf, hworlds, hreports⟩ :=
    (Parallel.refl ha hsound name).follow script hknown hpast hm
  exact ⟨f, hf, fun i j hij hj => hworlds.renames.mono hij hj, hreports, hworlds.cache⟩

/-- Both copies erase a stage and insert it again, the one under another key. What comes back is
looked up in `a` by the id it got, which is another one if `b` comes first. -/
def interleavedScript : List (Line ℕ ℕ) :=
  [⟨"b", .operation (.eraseStage (some "s")), none⟩,
    ⟨"b", .operation (.insert (some "s") ⟨.shared 2, none, 0⟩), none⟩,
    ⟨"a", .operation (.erase (.ofSerial 0)), none⟩,
    ⟨"a", .operation (.insert (some "s") ⟨.shared 1, none, 0⟩), none⟩,
    ⟨"a", .operation (.find .invalid), some 1⟩, ⟨"a", .question .stages, none⟩]

theorem caches_independent_interleavedScript : ∃ w : World ℕ ℕ, w = (empty.run sampleRun).1 ∧
    w.armed = ∅ ∧ (w.follow [] interleavedScript).1.minted < 2 ^ 63 - 1 ∧
    ∃ f : StageId → StageId,
      ((w.follow [] interleavedScript).2.filter (·.1 = "a")).map
          (fun p => (p.2.answer, p.2.deliveries)) =
        (w.follow [] (interleavedScript.filter (·.cache = "a"))).2.map
          (fun p => (p.2.answer.mapId f, p.2.deliveries.map (·.mapId f))) := by
  obtain ⟨w, hw⟩ : ∃ w : World ℕ ℕ, w = (empty.run sampleRun).1 := ⟨_, rfl⟩
  have ha : w.armed = ∅ := by
    rw [← Std.ExtTreeSet.isEmpty_iff, hw]
    cbv
  have hm : (w.follow [] interleavedScript).1.minted < 2 ^ 63 - 1 := by
    rw [hw]
    cbv
  have hknown : ∀ l ∈ interleavedScript, l.cache = "a" → l.earlier = none →
      ∀ i ∈ l.request.id?, i.toInt ≤ w.minted := by
    have hminted : w.minted = 3 := by
      rw [hw]
      cbv
    intro l hl hname hearlier i hi
    simp only [interleavedScript, List.mem_cons, List.not_mem_nil, or_false] at hl
    rcases hl with rfl | rfl | rfl | rfl | rfl | rfl <;> cases hi
    · rw [hminted]
      decide
    · cases hearlier
  obtain ⟨f, -, -, hreports, -⟩ :=
    caches_independent sampleRun hw ha interleavedScript "a" hknown hm
  exact ⟨w, hw, ha, hm, f, hreports⟩

end World

end SharedStages
