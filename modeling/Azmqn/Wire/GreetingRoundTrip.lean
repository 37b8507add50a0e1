import Azmqn.Wire.Greeting

/-!
# What a greeting tells its reader

The constructor writes the octets of `layout`, except that the as-server octet is
1 for a client too; so a greeting reads back as it was made exactly when it was
made for a server. Reading the mechanism of a received greeting stays inside the
64 octets exactly when one of the last 52 is a NUL.
-/

namespace Azmqn.Wire.Greeting

open MechanismNameView

/-- The arguments of the constructor. -/
structure Arguments where
  name : List Octet
  isServer : Bool
  vmajor : Octet
  vminor : Octet
  deriving DecidableEq, Repr

/-- A name that `mechanism_name_view` admits and `strlen` finds the end of. -/
structure Arguments.WellFormed (a : Arguments) : Prop where
  name_le : a.name.length ≤ maxSize
  no_nul : 0 ∉ a.name

/-- Both constructors at the given arguments, the name going through its view. -/
def Arguments.build (b : Build) (raw : Vector Octet 64) (a : Arguments) : Run Greeting := do
  let mechanism ← ofStringView b a.name
  ofMechanism raw mechanism a.isServer a.vmajor a.vminor

/-- The greeting answers every question as it was told. -/
structure Answers (b : Build) (g : Greeting) (a : Arguments) : Prop where
  valid : g.valid = true
  version : g.version b = .ok (a.vmajor, a.vminor)
  mechanism : g.mechanism b = .ok ⟨a.name⟩
  isServer : g.isServer = a.isServer

/-- The octets the arguments stand for, with an as-server octet of 1 or 0. -/
def Arguments.octets (a : Arguments) : List Octet :=
  layout a.name (if a.isServer then 0x1 else 0x0) a.vmajor a.vminor

/-- The constructor fills the buffer as it should, and both the greeting and a
second one built from its 64 octets answer with the arguments. -/
def RoundTrips (b : Build) (raw raw' : Vector Octet 64) (a : Arguments) : Prop :=
  ∃ g, a.build b raw = .ok g ∧ g.buf_.toList = a.octets ∧ Answers b g a ∧
    ∃ g', ofBuffer raw' g.buf_.toList = .ok g' ∧ Answers b g' a

theorem build_layout (b : Build) (raw : Vector Octet 64) {a : Arguments} (ha : a.WellFormed) :
    ∃ g, a.build b raw = .ok g ∧
      g.buf_.toList = layout a.name (asServer a.isServer) a.vmajor a.vminor := by
  obtain ⟨g, hg, hl⟩ := ofMechanism_layout raw ha.name_le a.isServer a.vmajor a.vminor
  exact ⟨g, by simp [Arguments.build, ofStringView_ok b ha.name_le, hg], hl⟩

theorem ofBuffer_eq (raw : Vector Octet 64) (g : Greeting) :
    ∃ g', ofBuffer raw g.buf_.toList = .ok g' ∧ g'.buf_.toList = g.buf_.toList := by
  have hlen : 0 + g.buf_.toList.length ≤ 64 := by simp
  have hstart : 0 = ([] : List Octet).length := rfl
  obtain ⟨m, hc, hf⟩ := copy_filled g.buf_.toList (filled_nil raw) hstart hlen
  exact ⟨⟨m⟩, by simp [ofBuffer, hc], by simpa using hf.eq (by simp)⟩

theorem answers_of_octets (b : Build) {g : Greeting} {a : Arguments} (ha : a.WellFormed)
    (h : g.buf_.toList = a.octets) : Answers b g a where
  valid := valid_layout h
  version := version_layout b h
  mechanism := mechanism_layout b h ha.name_le ha.no_nul
  isServer := by
    rw [isServer_layout h ha.name_le]
    cases a.isServer <;> rfl

theorem roundTrips_iff (b : Build) (raw raw' : Vector Octet 64) {a : Arguments}
    (ha : a.WellFormed) : RoundTrips b raw raw' a ↔ a.isServer = true := by
  obtain ⟨g, hg, hl⟩ := build_layout b raw ha
  constructor
  · rintro ⟨g₁, hg₁, -, hans, -⟩
    obtain rfl : g = g₁ := Except.ok.inj (hg.symm.trans hg₁)
    have hs := hans.isServer
    rw [isServer_layout hl ha.name_le] at hs
    exact hs.symm
  · intro hserver
    have ho : g.buf_.toList = a.octets := by
      rw [hl, Arguments.octets, hserver]
      rfl
    obtain ⟨g', hg', hl'⟩ := ofBuffer_eq raw' g
    exact ⟨g, hg, ho, answers_of_octets b ha ho, g', hg', answers_of_octets b ha (hl'.trans ho)⟩

/-- Greetings that answer alike were made from the same arguments. -/
theorem Answers.unique {b : Build} {g : Greeting} {a a' : Arguments}
    (h : Answers b g a) (h' : Answers b g a') : a = a' := by
  have hv := Except.ok.inj (h.version.symm.trans h'.version)
  have hm := Except.ok.inj (h.mechanism.symm.trans h'.mechanism)
  have hs := h.isServer.symm.trans h'.isServer
  cases a
  cases a'
  simp only [Prod.mk.injEq, MechanismNameView.mk.injEq] at hv hm hs
  simp [hv, hm, hs]

/-- Two greetings read back as they were made, and have equal buffers for equal
arguments only, exactly when both were made for a server. -/
theorem greeting_roundTrip_iff (b : Build) (raw raw' : Vector Octet 64) {a a' : Arguments}
    (ha : a.WellFormed) (ha' : a'.WellFormed) :
    (RoundTrips b raw raw' a ∧ RoundTrips b raw raw' a' ∧
      (∀ g g', a.build b raw = .ok g → a'.build b raw' = .ok g' → g.buf_ = g'.buf_ → a = a')) ↔
    a.isServer = true ∧ a'.isServer = true := by
  rw [roundTrips_iff b raw raw' ha, roundTrips_iff b raw raw' ha']
  constructor
  · rintro ⟨h, h', -⟩
    exact ⟨h, h'⟩
  · rintro ⟨h, h'⟩
    refine ⟨h, h', ?_⟩
    intro g g' hg hg' heq
    obtain ⟨g₁, hg₁, -, hans, -⟩ := (roundTrips_iff b raw raw' ha).mpr h
    obtain ⟨g₂, hg₂, -, hans', -⟩ := (roundTrips_iff b raw' raw ha').mpr h'
    obtain rfl := Except.ok.inj (hg.symm.trans hg₁)
    obtain rfl := Except.ok.inj (hg'.symm.trans hg₂)
    cases g
    cases g'
    simp only at heq
    subst heq
    exact hans.unique hans'

/-- The greeting of a server and of a client of the mechanism `NULL`. -/
def nullMechanism (isServer : Bool) : Arguments := ⟨[78, 85, 76, 76], isServer, 0x3, 0x1⟩

theorem nullMechanism_wellFormed (isServer : Bool) : (nullMechanism isServer).WellFormed := by
  constructor
  · change 4 ≤ 20
    decide
  · change (0 : Octet) ∉ [78, 85, 76, 76]
    decide

theorem greeting_roundTrip_null :
    RoundTrips .debug (Vector.replicate 64 7) (Vector.replicate 64 9) (nullMechanism true) ∧
      nullMechanism true ≠ nullMechanism false :=
  ⟨((greeting_roundTrip_iff .debug _ _ (nullMechanism_wellFormed true)
    (nullMechanism_wellFormed true)).mpr ⟨rfl, rfl⟩).1, by decide⟩

/-- A client's greeting says that it is a server's. -/
theorem client_greeting_not_roundTrips :
    ¬ RoundTrips .debug (Vector.replicate 64 0) (Vector.replicate 64 0) (nullMechanism false) := by
  rw [roundTrips_iff _ _ _ (nullMechanism_wellFormed false)]
  decide

/-- For two greetings that agree on octets 12 to 31, `mechanism()` reads inside the
buffer and returns the same name, the octets of the field up to the first NUL,
exactly when both have a NUL at or behind octet 12. -/
theorem mechanism_inside_iff (b : Build) {g g' : Greeting}
    (hagree : (g.buf_.toList.drop 12).take 20 = (g'.buf_.toList.drop 12).take 20) :
    (∃ name, g.mechanism b = .ok ⟨name⟩ ∧ g'.mechanism b = .ok ⟨name⟩ ∧
      name.length ≤ maxSize ∧ name = ((g.buf_.toList.drop 12).take 20).takeWhile (· ≠ 0)) ↔
    0 ∈ g.buf_.toList.drop 12 ∧ 0 ∈ g'.buf_.toList.drop 12 := by
  have hfield : g.nameField = g'.nameField := by rw [nameField, nameField, hagree]
  constructor
  · rintro ⟨name, hg, hg', -, -⟩
    constructor
    · by_contra h
      rw [mechanism_of_not_mem b h] at hg
      cases hg
    · by_contra h
      rw [mechanism_of_not_mem b h] at hg'
      cases hg'
  · rintro ⟨h, h'⟩
    refine ⟨g.nameField, mechanism_of_mem b h, ?_, g.length_nameField_le, rfl⟩
    rw [hfield]
    exact mechanism_of_mem b h'

/-- A received greeting with the given octets behind its signature. -/
def received (rest : Vector Octet 54) : Greeting :=
  ⟨⟨signature.toArray ++ rest.toArray, by simp [signature]⟩⟩

/-- Version 3.1, mechanism `NULL`, and the given last octet of the filler. -/
def receivedNull (last : Octet) : Greeting :=
  received ⟨([0x3, 0x1, 78, 85, 76, 76] ++ List.replicate 47 0 ++ [last]).toArray, by simp⟩

theorem mechanism_inside_null :
    (receivedNull 0).valid = true ∧ (receivedNull 1).valid = true ∧
      ∃ name, (receivedNull 0).mechanism .debug = .ok ⟨name⟩ ∧
        (receivedNull 1).mechanism .debug = .ok ⟨name⟩ ∧ name.length ≤ maxSize ∧
        name = (((receivedNull 0).buf_.toList.drop 12).take 20).takeWhile (· ≠ 0) :=
  ⟨by decide, by decide, (mechanism_inside_iff .debug (by decide)).mpr ⟨by decide, by decide⟩⟩

/-- A valid greeting without a NUL behind its version makes the scan leave the buffer. -/
theorem unterminated_mechanism_outOfBounds :
    (received (Vector.replicate 54 65)).valid = true ∧
      (received (Vector.replicate 54 65)).mechanism .debug = .error .outOfBounds ∧
      (received (Vector.replicate 54 65)).mechanism .ndebug = .error .outOfBounds := by
  decide

end Azmqn.Wire.Greeting
