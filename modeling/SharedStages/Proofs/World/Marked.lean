import SharedStages.Proofs.Ledger
import SharedStages.Proofs.World.Reach

/-! Runs in which every name has one trigger: all handles of a name are copies of one handle. Then
the handles that the caches and the stages keep are the ones that their names stand for, so that to
know a handle it is enough to know its name. -/

namespace SharedStages

variable {H C : Type}

/-- The handle that a name stands for if `mark` tells which trigger each name has. -/
def Layer.marked (mark : H → ℕ) (name : H) : Layer H := ⟨name, mark name⟩

/-- The key is one of names. -/
def Key.Marked (mark : H → ℕ) (k : Key (Layer H) C) : Prop :=
  ∃ n : Key H C, k = n.map (Layer.marked mark)

theorem Key.Marked.root {mark : H → ℕ} {k : Key (Layer H) C} (h : k.Marked mark) :
    k.root = .marked mark k.root.name := by
  obtain ⟨n, rfl⟩ := h
  rfl

theorem Key.Marked.session {mark : H → ℕ} {k : Key (Layer H) C} (h : k.Marked mark) :
    ∀ l ∈ k.session, l = .marked mark l.name := by
  obtain ⟨n, rfl⟩ := h
  intro l hl
  obtain ⟨m, -, rfl⟩ := Option.map_eq_some_iff.1 hl
  rfl

/-- The operation is one that is called by names. -/
def Operation.Marked {σ : Type} (mark : H → ℕ) (op : Operation σ (Layer H) C) : Prop :=
  ∃ p : Operation σ H C, op = p.map (Layer.marked mark)

theorem Operation.resolve_map {σ τ L : Type} (f : H → L) (g : σ → Option τ)
    (p : Operation σ H C) : (p.map f).resolve g = (p.resolve g).map (·.map f) := by
  cases p with
  | insert stage key => cases h : g stage <;> simp [map, resolve, h]
  | eraseStage stage => cases h : g stage <;> simp [map, resolve, h]
  | _ => rfl

variable [Ord H] [Std.TransOrd H]

/-- The entries and the buckets of a store are filed by the handles of their names. -/
structure Store.Marked (mark : H → ℕ) (s : Store H C) : Prop where
  handles {id : StageId} {e : Entry H C} : s.entries[id]? = some e → e.handles.Marked mark
  root {r : H} {b : Bucket H} : s.byRoot[r]? = some b → b.root = .marked mark b.root.name

namespace Store.Marked

variable {mark : H → ℕ} {s : Store H C}

theorem empty : (Store.empty : Store H C).Marked mark where
  handles he := by simp [Store.empty] at he
  root hb := by simp [Store.empty] at hb

variable [Std.LawfulEqOrd H] [DecidableEq H]

theorem add (h : s.Marked mark) {e : Entry H C} (he : e.handles.Marked mark) :
    (s.add e).Marked mark where
  handles {id f} hf := by
    have hentries : (s.add e).entries[id]? = if e.id = id then some e else s.entries[id]? :=
      getElem?_putEntry _ e id
    rw [hentries] at hf
    split_ifs at hf
    · exact Option.some.inj hf ▸ he
    · exact h.handles hf
  root {r b} hb := by
    have hroots : (s.add e).byRoot[r]? = if e.key.root = r then
        some ((s.byRoot[e.key.root]?.getD ⟨e.handles.root, ∅⟩).insert e.id) else s.byRoot[r]? :=
      getElem?_putRoot s e.handles.root r e.id
    rw [hroots] at hb
    split_ifs at hb
    · cases hb
      cases hold : s.byRoot[e.key.root]? with
      | none => exact he.root
      | some b' => exact (h.root hold :)
    · exact h.root hb

theorem remove (h : s.Marked mark) (id : StageId) : (s.remove id).Marked mark where
  handles {i f} hf := by
    rw [getElem?_entries_remove] at hf
    split_ifs at hf
    exact h.handles hf
  root hb := by
    obtain ⟨b', hb', hroot⟩ := root_of_byRoot_remove hb
    rw [hroot]
    exact h.root hb'

theorem foldl_remove (h : s.Marked mark) (ids : List StageId) :
    (ids.foldl Store.remove s).Marked mark := by
  induction ids generalizing s with
  | nil => exact h
  | cons id ids ih => exact ih (h.remove id)

end Store.Marked

theorem Store.Marked.layers [Std.LawfulEqOrd H] {mark : H → ℕ} {s : Store H C} (h : s.Marked mark) :
    ∀ l ∈ s.layers, l = .marked mark l.name := by
  intro l hl
  rcases List.mem_append.1 hl with hl | hl
  · obtain ⟨e, he, hl⟩ := List.mem_flatMap.1 hl
    obtain ⟨id, hid⟩ := mem_values.1 he
    rcases List.mem_cons.1 hl with rfl | hl
    · exact (h.handles hid).root
    · exact (h.handles hid).session l (Option.mem_toList.1 hl)
  · obtain ⟨b, hb, rfl⟩ := List.mem_map.1 hl
    obtain ⟨r, hr⟩ := mem_values.1 hb
    exact h.root hr

section Operations

variable [DecidableEq H] [DecidableEq C] {mark : H → ℕ} {s : Store H C}

/-- All that a query finds has the handle of the query. -/
theorem Store.Marked.root_of_admits (h : s.Marked mark) {q : Query (Layer H) C}
    (hq : q.root = .marked mark q.root.name) {id : StageId} {e : Entry H C}
    (he : s.entries[id]? = some e) (hadm : q.names.admits e.key = true) :
    e.handles.root = q.root := by
  have hname : q.root.name = e.handles.root.name := (Query.admits_iff.1 hadm).1
  rw [(h.handles he).root, hq, hname]

theorem Operation.Marked.layers {op : Operation Stage (Layer H) C} (h : s.Marked mark)
    (hop : op.Marked mark) : ∀ l ∈ op.layers s, l = .marked mark l.name := by
  have hroot {id : StageId} {l : Layer H}
      (hl : l ∈ s.entries[id]?.toList.map (·.handles.root)) : l = .marked mark l.name := by
    obtain ⟨e, he, rfl⟩ := List.mem_map.1 hl
    exact (h.handles (Option.mem_toList.1 he)).root
  obtain ⟨p, rfl⟩ := hop
  intro l hl
  cases p with
  | find id => cases hl
  | clear => cases hl
  | erase id => exact hroot hl
  | eraseStage stage => exact hroot hl
  | eraseAll q =>
    simp only [map, Operation.layers] at hl
    split_ifs at hl
    · cases hl
    · rcases List.mem_cons.1 hl with rfl | hl
      · rfl
      · obtain ⟨e, he, rfl⟩ := List.mem_map.1 hl
        obtain ⟨id, -, hid⟩ := List.mem_filterMap.1 he
        exact (h.handles hid).root
  | _ =>
    simp only [map, Operation.layers] at hl
    split_ifs at hl
    · cases hl
    · rw [List.mem_singleton.1 hl]
      rfl

theorem Operation.Marked.after [Std.LawfulEqOrd H] {op : Operation Stage (Layer H) C}
    (h : s.Marked mark) (hop : op.Marked mark) (n : ℕ) : (op.after s n).Marked mark := by
  obtain ⟨p, rfl⟩ := hop
  cases p with
  | insert stage key =>
    simp only [map, Operation.after]
    split_ifs
    · exact h
    · exact h.add ⟨key, rfl⟩
  | erase id => exact h.remove id
  | eraseStage stage => exact h.remove (s.idOf stage)
  | eraseAll q => exact h.foldl_remove _
  | clear => exact .empty
  | _ => exact h

end Operations

namespace World

/-- So are all stores of a world, and the keys that stages report for themselves. -/
structure Marked (mark : H → ℕ) (w : World H C) : Prop where
  store {name : String} {c : Cache H C} : w.caches[name]? = some c → c.store.Marked mark
  profile {t : Stage} {p : Profile (Layer H) C} :
    w.ledger.info? t = some p → ∀ k ∈ p.key, k.Marked mark

variable {mark : H → ℕ} {w : World H C}

theorem marked_empty : (empty : World H C).Marked mark where
  store hc := by simp [empty] at hc
  profile hp := by simp [empty, Ledger.empty, Ledger.info?] at hp

theorem Marked.operation? (h : w.Marked mark) {s : Step H C} {cache : String}
    {op : Operation Stage (Layer H) C}
    (hs : w.operation? (s.map (Layer.marked mark)) = some (cache, op)) : op.Marked mark := by
  cases s with
  | perform name p =>
    obtain ⟨q, hq, hop⟩ := Option.map_eq_some_iff.1 hs
    cases hop
    rw [Operation.resolve_map] at hq
    obtain ⟨r, -, rfl⟩ := Option.map_eq_some_iff.1 hq
    exact ⟨r, rfl⟩
  | insertKeyed name handle =>
    obtain ⟨key, hkey, hs⟩ := Option.bind_eq_some_iff.1 hs
    obtain ⟨stage, hstage, hs⟩ := Option.bind_eq_some_iff.1 hs
    cases hs
    obtain ⟨p, hp, hpkey⟩ := Option.bind_eq_some_iff.1 hkey
    obtain ⟨t, -, hinfo⟩ := Option.bind_eq_some_iff.1 hp
    obtain ⟨n, rfl⟩ := h.profile hinfo key hpkey
    exact ⟨.insert stage n, rfl⟩
  | _ => cases hs

variable [DecidableEq H] [DecidableEq C]

/-- Stages get their profiles from the step that makes them. -/
theorem info?_step {s : Step (Layer H) C} {t : Stage} {p : Profile (Layer H) C}
    (h : (w.step s).1.ledger.info? t = some p) :
    w.ledger.info? t = some p ∨ ∃ handle, s = .create handle p.label p.key := by
  have hsettle (l : Ledger (Profile (Layer H) C)) (gained lost : List Stage)
      (hl : ((l.retainAll gained).releaseAll lost).2.info? t = some p) : l.info? t = some p := by
    rw [← l.info?_retainAll gained]
    exact Ledger.info?_of_releaseAll hl
  have ht := step_transition w s
  generalize w.step s = x at ht h
  cases ht with
  | idle hne hl => exact .inl h
  | arm => exact .inl h
  | observe hc => exact .inl h
  | rename hc hr => exact .inl h
  | swap hc hd => exact .inl h
  | @create handle label key =>
    have hinfo := hsettle (w.ledger.create ⟨label, key⟩).2 _ _ h
    rw [Ledger.info?_create] at hinfo
    split_ifs at hinfo
    · cases hinfo
      exact .inr ⟨handle, rfl⟩
    · exact .inl hinfo
  | @release _ stage hh => exact .inl (hsettle w.ledger [] [stage] h)
  | _ => exact .inl (hsettle w.ledger _ _ h)

variable [Std.LawfulEqOrd H]

/-- Whatever a step by names copies or hashes is the handle of a name. -/
theorem Marked.layers (h : w.Marked mark) (s : Step H C) :
    ∀ l ∈ w.layers (s.map (Layer.marked mark)), l = .marked mark l.name := by
  have hcopy {name : String} : ∀ l ∈ (w.caches[name]?.map (·.store.layers)).getD [],
      l = .marked mark l.name := by
    cases hc : w.caches[name]? with
    | none => exact List.forall_mem_nil _
    | some c => exact (h.store hc).layers
  have hop {name : String} {op : Operation Stage (Layer H) C} {s : Step H C}
      (hs : w.operation? (s.map (Layer.marked mark)) = some (name, op)) :
      ∀ l ∈ w.layers (s.map (Layer.marked mark)), l = .marked mark l.name := by
    rw [layers_of_operation? hs]
    cases hc : w.caches[name]? with
    | none => exact List.forall_mem_nil _
    | some c => exact (h.operation? hs).layers (h.store hc)
  cases hs : w.operation? (s.map (Layer.marked mark)) with
  | some p => exact hop hs
  | none =>
    cases s with
    | copy name target => exact hcopy
    | copyFrom name source =>
      simp only [Step.map, World.layers]
      split_ifs
      · exact hcopy
      · exact List.forall_mem_nil _
    | _ =>
      simp only [Step.map] at hs
      simp only [Step.map, World.layers, hs]
      exact List.forall_mem_nil _

theorem Marked.step (h : w.Marked mark) (s : Step H C) :
    (w.step (s.map (Layer.marked mark))).1.Marked mark where
  store {name c'} hc' := by
    generalize hs' : s.map (Layer.marked mark) = s' at hc'
    cases origin hc' with
    | kept hc => exact (h.store hc :)
    | made => exact .empty
    | configured hc =>
      rw [(Cache.ofConfig_eq hc).1]
      exact .empty
    | observed hc => exact (h.store hc :)
    | renamed hc hr =>
      rw [Cache.rename_eq hr]
      exact (h.store hc :)
    | copied hd => exact (h.store hd :)
    | overwritten hc hd => exact (h.store hd :)
    | swapped hc hd => exact (h.store hd :)
    | swappedBack hc hd => exact (h.store hc :)
    | performed hs hc hl =>
      subst hs'
      exact (h.operation? hs).after (h.store hc) w.minted
    | interrupted hs hc hl => exact (h.store hc).foldl_remove _
  profile {t p} hp k hk := by
    rcases info?_step hp with hp | ⟨handle, hs⟩
    · exact h.profile hp k hk
    · cases s with
      | create handle' label key =>
        simp only [Step.map, Step.create.injEq] at hs
        rw [← hs.2.2] at hk
        obtain ⟨n, -, rfl⟩ := Option.map_eq_some_iff.1 hk
        exact ⟨n, rfl⟩
      | _ => cases hs

theorem Marked.run (h : w.Marked mark) (steps : List (Step H C)) :
    (w.run (steps.map (.map (Layer.marked mark)))).1.Marked mark := by
  induction steps generalizing w with
  | nil => exact h
  | cons s ss ih => exact ih (h.step s)

end World

end SharedStages
