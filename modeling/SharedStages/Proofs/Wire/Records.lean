import SharedStages.Proofs.Wire.Fields

/-! Keys and configurations are decoded by their fields. -/

namespace SharedStages

open Json

namespace Key

def fields : List Field :=
  [⟨"root", true, IsString⟩, ⟨"session", false, fun v => v = null ∨ v.IsString⟩,
    ⟨"context", true, IsStrings⟩]

/-- The key is what the members with the names of its fields say. -/
structure GivenBy (k : Key String (List String)) (ms : Members) : Prop where
  root : Given Denotes (valuesOf ms "root") k.root
  session : GivenOrNot Denotes (valuesOf ms "session") k.session
  context : Given Lists (valuesOf ms "context") k.context

variable {cols : List (Option Json)} {k : Key String (List String)}

theorem ofColumns?_eq_some_iff :
    ofColumns? cols = some k ↔ ∃ root session context, cols = [root, session, context] ∧
      Json.required text? root = some k.root ∧ Json.optional text? session = some k.session ∧
      Json.required texts? context = some k.context := by
  constructor
  · intro h
    unfold ofColumns? at h
    split at h
    · simp only [Option.bind_eq_bind, Option.bind_eq_some_iff, Option.pure_def] at h
      obtain ⟨root, hroot, session, hsession, context, hcontext, ⟨⟩⟩ := h
      exact ⟨_, _, _, rfl, hroot, hsession, hcontext⟩
    · cases h
  · rintro ⟨root, session, context, rfl, hroot, hsession, hcontext⟩
    simp [ofColumns?, hroot, hsession, hcontext]

theorem reads_root : Reads ⟨"root", true, IsString⟩ (Json.required text?) (Given Denotes) :=
  reads_required (fun _ _ => text?_eq_some_iff) rfl fun _ => Iff.rfl

theorem reads_session : Reads ⟨"session", false, fun v => v = null ∨ v.IsString⟩
    (Json.optional text?) (GivenOrNot Denotes) :=
  reads_optional (fun _ _ => text?_eq_some_iff) rfl (fun _ => Iff.rfl) rfl

theorem reads_context : Reads ⟨"context", true, IsStrings⟩ (Json.required texts?) (Given Lists) :=
  reads_required (fun _ _ => texts?_eq_some_iff) rfl fun _ => isStrings_iff

theorem isSome_ofColumns? (cols : List (Option Json)) : (ofColumns? cols).isSome ↔
    List.Forall₂ (fun f col => f.Admits col.toList) fields cols := by
  constructor
  · intro h
    obtain ⟨k, hk⟩ := Option.isSome_iff_exists.1 h
    obtain ⟨root, session, context, rfl, hroot, hsession, hcontext⟩ := ofColumns?_eq_some_iff.1 hk
    exact .cons ((reads_root.accepts root).1 (Option.isSome_of_eq_some hroot))
      (.cons ((reads_session.accepts session).1 (Option.isSome_of_eq_some hsession))
        (.cons ((reads_context.accepts context).1 (Option.isSome_of_eq_some hcontext)) .nil))
  · rintro (_ | ⟨hroot, _ | ⟨hsession, _ | ⟨hcontext, ⟨⟩⟩⟩⟩)
    obtain ⟨root, hroot⟩ := Option.isSome_iff_exists.1 ((reads_root.accepts _).2 hroot)
    obtain ⟨session, hsession⟩ := Option.isSome_iff_exists.1 ((reads_session.accepts _).2 hsession)
    obtain ⟨context, hcontext⟩ := Option.isSome_iff_exists.1 ((reads_context.accepts _).2 hcontext)
    have hk : ofColumns? _ = some ⟨root, session, context⟩ :=
      ofColumns?_eq_some_iff.2 ⟨_, _, _, rfl, hroot, hsession, hcontext⟩
    exact Option.isSome_of_eq_some hk

theorem givenBy_iff (k : Key String (List String)) (ms : Members) :
    (∃ cols, Filled fields ms cols ∧ ofColumns? cols = some k) ↔ GivenBy k ms := by
  constructor
  · rintro ⟨cols, hcols, hk⟩
    obtain ⟨root, session, context, rfl, hroot, hsession, hcontext⟩ := ofColumns?_eq_some_iff.1 hk
    obtain _ | ⟨hr, _ | ⟨hs, _ | ⟨hc, -⟩⟩⟩ := hcols
    exact ⟨reads_root.gives.2 ⟨root, hr, hroot⟩, reads_session.gives.2 ⟨session, hs, hsession⟩,
      reads_context.gives.2 ⟨context, hc, hcontext⟩⟩
  · rintro ⟨hroot, hsession, hcontext⟩
    obtain ⟨root, hr, hroot⟩ := reads_root.gives.1 hroot
    obtain ⟨session, hs, hsession⟩ := reads_session.gives.1 hsession
    obtain ⟨context, hc, hcontext⟩ := reads_context.gives.1 hcontext
    exact ⟨[root, session, context], .cons hr (.cons hs (.cons hc .nil)),
      ofColumns?_eq_some_iff.2 ⟨root, session, context, rfl, hroot, hsession, hcontext⟩⟩

theorem decodes : DecodesByFields parseJson? fields GivenBy :=
  decodesByFields (fun _ => rfl) (by decide) isSome_ofColumns? givenBy_iff

end Key

namespace Config

def fields : List Field :=
  [⟨"debug_name", false, fun v => v = null ∨ v.IsString⟩, ⟨"trace", true, fun v => ∃ b, v = bool b⟩]

/-- The configuration is what the members with the names of its fields say. -/
structure GivenBy (c : Config) (ms : Members) : Prop where
  debugName : GivenOrNot Denotes (valuesOf ms "debug_name") c.debugName
  trace : Given (fun v b => v = bool b) (valuesOf ms "trace") c.trace

variable {cols : List (Option Json)} {c : Config}

theorem ofColumns?_eq_some_iff :
    ofColumns? cols = some c ↔ ∃ name trace, cols = [name, trace] ∧
      Json.optional text? name = some c.debugName ∧ Json.required bool? trace = some c.trace := by
  constructor
  · intro h
    unfold ofColumns? at h
    split at h
    · simp only [Option.bind_eq_bind, Option.bind_eq_some_iff, Option.pure_def] at h
      obtain ⟨name, hname, trace, htrace, ⟨⟩⟩ := h
      exact ⟨_, _, rfl, hname, htrace⟩
    · cases h
  · rintro ⟨name, trace, rfl, hname, htrace⟩
    simp [ofColumns?, hname, htrace]

theorem reads_debugName : Reads ⟨"debug_name", false, fun v => v = null ∨ v.IsString⟩
    (Json.optional text?) (GivenOrNot Denotes) :=
  reads_optional (fun _ _ => text?_eq_some_iff) rfl (fun _ => Iff.rfl) rfl

theorem reads_trace : Reads ⟨"trace", true, fun v => ∃ b, v = bool b⟩ (Json.required bool?)
    (Given fun v b => v = bool b) :=
  reads_required (fun _ _ => bool?_eq_some_iff) rfl fun _ => Iff.rfl

theorem isSome_ofColumns? (cols : List (Option Json)) : (ofColumns? cols).isSome ↔
    List.Forall₂ (fun f col => f.Admits col.toList) fields cols := by
  constructor
  · intro h
    obtain ⟨c, hc⟩ := Option.isSome_iff_exists.1 h
    obtain ⟨name, trace, rfl, hname, htrace⟩ := ofColumns?_eq_some_iff.1 hc
    exact .cons ((reads_debugName.accepts name).1 (Option.isSome_of_eq_some hname))
      (.cons ((reads_trace.accepts trace).1 (Option.isSome_of_eq_some htrace)) .nil)
  · rintro (_ | ⟨hname, _ | ⟨htrace, ⟨⟩⟩⟩)
    obtain ⟨name, hname⟩ := Option.isSome_iff_exists.1 ((reads_debugName.accepts _).2 hname)
    obtain ⟨trace, htrace⟩ := Option.isSome_iff_exists.1 ((reads_trace.accepts _).2 htrace)
    have hc : ofColumns? _ = some ⟨name, trace⟩ :=
      ofColumns?_eq_some_iff.2 ⟨_, _, rfl, hname, htrace⟩
    exact Option.isSome_of_eq_some hc

theorem givenBy_iff (c : Config) (ms : Members) :
    (∃ cols, Filled fields ms cols ∧ ofColumns? cols = some c) ↔ GivenBy c ms := by
  constructor
  · rintro ⟨cols, hcols, hc⟩
    obtain ⟨name, trace, rfl, hname, htrace⟩ := ofColumns?_eq_some_iff.1 hc
    obtain _ | ⟨hn, _ | ⟨ht, -⟩⟩ := hcols
    exact ⟨reads_debugName.gives.2 ⟨name, hn, hname⟩, reads_trace.gives.2 ⟨trace, ht, htrace⟩⟩
  · rintro ⟨hname, htrace⟩
    obtain ⟨name, hn, hname⟩ := reads_debugName.gives.1 hname
    obtain ⟨trace, ht, htrace⟩ := reads_trace.gives.1 htrace
    exact ⟨[name, trace], .cons hn (.cons ht .nil),
      ofColumns?_eq_some_iff.2 ⟨name, trace, rfl, hname, htrace⟩⟩

theorem decodes : DecodesByFields parseJson? fields GivenBy :=
  decodesByFields (fun _ => rfl) (by decide) isSome_ofColumns? givenBy_iff

end Config

/-- Members with other names, the order of the members and blanks are of no consequence, and an
array counts as the object with its values under the names of the fields. -/
theorem records_decoded_by_fields :
    DecodesByFields Key.parseJson? Key.fields Key.GivenBy ∧
      DecodesByFields Config.parseJson? Config.fields Config.GivenBy :=
  ⟨Key.decodes, Config.decodes⟩

example : Key.parseJson? "\x7b\"x\":[\x7b\"root\":1\x7d], \"context\":[\"b\"],\"root\":\"a\" \x7d" =
    some ⟨"a", none, ["b"]⟩ := by rfl

end SharedStages
