import ClassForge.Proofs.Descriptor.Remembering
import ClassForge.Proofs.Machine.Blindness
import ClassForge.Proofs.Proxy.Blindness

namespace ClassForge

namespace ClassFile

def bare (m : ClassFile) : ClassFile := { m with pool := { slots := m.pool.slots } }

theorem bare_congr (m : ClassFile) (p : Pool) (alike : m.pool.Alike p) :
    bare { m with pool := p } = m.bare := by
  rw [bare, bare, alike.slots]

end ClassFile

inductive Worker where
  | body (a : Assembly)
  | builder (c : ClassBuilder)
  | machine (m : Machine)

inductive Answer where
  | nothing
  | code (code : Code)
  | file (m : ClassFile)
  | bytes (bytes : List UInt8)
  | generated (made : Except Error ClassFile) (bodies : Array Transcript)
  | generatedBytes (made : Except Error (List UInt8)) (bodies : Array Transcript)
  | name (name : String)
  | value (v : Option Value)
  | refused (e : Error)
  | failed (e : MachineError)
  | unsuited

inductive BodyJob where
  | steps (steps : Listing)
  | finish

inductive BuilderJob where
  /-- A call that brings a memory puts it in the place of the one in use. -/
  | call (call : ClassBuilder.Call)
  | build
  | toBytes

inductive MachineJob where
  | define (bytes : List UInt8)
  | newInstance (fuel : Nat) (name descriptor : String) (args : List Value)
  | invokeVirtual (fuel : Nat) (receiver : Value) (name descriptor : String) (args : List Value)
  | invokeStatic (fuel : Nat) (owner name descriptor : String) (args : List Value)

inductive Job where
  | start (pool : Pool) (descriptor : String) (isStatic : Bool)
  | newClass (name : String)
  | generate (s : ProxySpec)
  | generateBytes (s : ProxySpec)
  | body (job : BodyJob)
  | builder (job : BuilderJob)
  | machine (job : MachineJob)

namespace BodyJob

def task : BodyJob → AssemblyM Answer
  | steps listing => do
    Assembly.runSteps listing
    return .nothing
  | finish => do
    match (← get).body.finish with
    | .ok code => return .code code
    | .error e => throw e

theorem blind_task (job : BodyJob) : Assembly.view.Blind job.task := by
  cases job with
  | steps listing => exact (Assembly.keeps_runSteps listing).blind.bind fun _ => .pure _
  | finish =>
    refine .look (fun _ => rfl) fun a => ?_
    split
    · exact .pure _
    · exact .throw _

end BodyJob

namespace BuilderJob

def task : BuilderJob → BuilderM Answer
  | call c => do
    c.perform
    return .nothing
  | build => do return .file (← ClassBuilder.build).bare
  | toBytes => do return .bytes (← ClassBuilder.toBytes)

theorem blind_task (job : BuilderJob) : (ClassBuilder.view true).Blind job.task := by
  cases job with
  | call c => exact c.blind.bind fun _ => .pure _
  | build =>
    exact ClassBuilder.blind_build_map fun m p alike => congrArg Answer.file (m.bare_congr p alike)
  | toBytes => exact ClassBuilder.blind_toBytes.bind fun _ => .pure _

end BuilderJob

namespace MachineJob

def task : MachineJob → MachineM Answer
  | define bytes => do return .name (← Machine.define bytes)
  | newInstance fuel name descriptor args => do
    let v ← Machine.newInstance fuel name descriptor args
    return .value (some v)
  | invokeVirtual fuel receiver name descriptor args => do
    let v ← Machine.invokeVirtual fuel receiver name descriptor args
    return .value v
  | invokeStatic fuel owner name descriptor args => do
    let v ← Machine.invokeStatic fuel owner name descriptor args
    return .value v

theorem blind_task (job : MachineJob) : Machine.view.Blind job.task := by
  cases job with
  | define bytes => exact (Machine.operates_define bytes).blind.bind fun _ => .pure _
  | newInstance => exact (Machine.blind_newInstance _ _ _ _).bind fun _ => .pure _
  | invokeVirtual => exact (Machine.blind_invokeVirtual _ _ _ _ _).bind fun _ => .pure _
  | invokeStatic => exact (Machine.blind_invokeStatic _ _ _ _ _).bind fun _ => .pure _

end MachineJob

namespace Worker

def memory : Worker → DescriptorCache
  | body a => a.body.cache
  | builder c => c.cache
  | machine m => m.cache

def given (known : DescriptorCache) : Worker → Worker
  | body a => .body { a with body := { a.body with cache := known } }
  | builder c => .builder { c with cache := known }
  | machine m => .machine { m with cache := known }

/-- Workers that differ in what they remember, in how they keep lookups in their pools, and in what
they have told. -/
inductive Alike : Worker → Worker → Prop where
  | body {a b : Assembly} (alike : Assembly.view.Alike a b) : Alike (.body a) (.body b)
  | builder {c d : ClassBuilder} (alike : (ClassBuilder.view true).Alike c d) :
    Alike (.builder c) (.builder d)
  | machine {m n : Machine} (alike : Machine.view.Alike m n) : Alike (.machine m) (.machine n)

def Agree (x y : Answer × Worker) : Prop := x.1 = y.1 ∧ Alike x.2 y.2

theorem Alike.refl (w : Worker) : Alike w w := by
  cases w with
  | body a => exact .body ⟨.refl _, rfl⟩
  | builder c => exact .builder ⟨.refl _, rfl⟩
  | machine m => exact .machine ⟨.refl _, rfl⟩

theorem Alike.given {w w' : Worker} (alike : Alike w w') (known known' : DescriptorCache) :
    Alike (w.given known) (w'.given known') := by
  cases alike with
  | body alike => exact .body ⟨alike.pool, alike.rest⟩
  | builder alike => exact .builder ⟨alike.pool, alike.rest⟩
  | machine alike => exact .machine ⟨alike.pool, alike.rest⟩

def settle {ε σ : Type} (failed : ε → Answer) (put : σ → Worker) :
    EStateM.Result ε σ Answer → Answer × Worker
  | .ok answer s => (answer, put s)
  | .error e s => (failed e, put s)

theorem agree_settle {ε σ : Type} {V : View σ} {failed : ε → Answer} {put : σ → Worker}
    {x y : EStateM.Result ε σ Answer} (puts : ∀ s t, V.Alike s t → Alike (put s) (put t))
    (ends : V.Ends x y) : Agree (settle failed put x) (settle failed put y) := by
  cases ends with
  | ok a alike | error e alike => exact ⟨rfl, puts _ _ alike⟩

end Worker

namespace Job

open Worker

def perform : Job → Worker → Answer × Worker
  | start pool descriptor isStatic, w =>
    match Body.start pool w.memory descriptor isStatic with
    | (.ok b, _) => (.nothing, .body { body := b })
    | (.error e, known) => (.refused e, w.given known)
  | newClass name, w => (.nothing, .builder { ClassBuilder.ofName name with cache := w.memory })
  | generate s, w =>
    let (made, g) := s.generate w.memory
    (.generated (made.map ClassFile.bare) g.bodies, .builder g.builder)
  | generateBytes s, w =>
    let (made, g) := s.generateBytes w.memory
    (.generatedBytes made g.bodies, .builder g.builder)
  | body job, .body a => settle .refused .body (job.task a)
  | builder job, .builder c => settle .refused .builder (job.task c)
  | machine job, .machine m => settle .failed .machine (job.task m)
  | _, w => (.unsuited, w)

theorem agree_start (pool : Pool) (descriptor : String) (isStatic : Bool) {w w' : Worker}
    (alike : Alike w w') : Agree ((start pool descriptor isStatic).perform w)
      ((start pool descriptor isStatic).perform w') := by
  have started := ClassBuilder.starts (.refl pool) w.memory w'.memory descriptor isStatic
  simp only [perform]
  generalize Body.start pool w.memory descriptor isStatic = x at started
  generalize Body.start pool w'.memory descriptor isStatic = y at started
  obtain ⟨x, known⟩ := x
  obtain ⟨y, known'⟩ := y
  cases started with
  | @ok b b' bodies _ =>
    have fresh : Assembly.view.Alike { body := b } { body := b' } :=
      ⟨bodies.pool, congrArg (fun b => ({ body := b } : Assembly)) bodies.rest⟩
    exact ⟨rfl, .body fresh⟩
  | error e => exact ⟨rfl, alike.given known known'⟩

theorem agree_perform (job : Job) {w w' : Worker} (alike : Alike w w') :
    Agree (job.perform w) (job.perform w') := by
  cases job with
  | start pool descriptor isStatic => exact agree_start _ _ _ alike
  | newClass name => exact ⟨rfl, .builder ⟨.refl _, rfl⟩⟩
  | generate s =>
    obtain ⟨made, alike⟩ := s.generateWith_blind
      (ClassBuilder.blind_build_map ClassFile.bare_congr) w.memory w'.memory
    simp only [ProxySpec.generateWith_map] at made alike
    exact ⟨congrArg₂ Answer.generated made (Generation.bodies_of_alike alike),
      .builder (Generation.builder_of_alike alike)⟩
  | generateBytes s =>
    obtain ⟨made, alike⟩ := s.generateWith_blind ClassBuilder.blind_toBytes w.memory w'.memory
    exact ⟨congrArg₂ Answer.generatedBytes made (Generation.bodies_of_alike alike),
      .builder (Generation.builder_of_alike alike)⟩
  | body job =>
    cases alike with
    | body alike => exact agree_settle (fun _ _ => .body) (job.blind_task _ _ alike)
    | builder alike => exact ⟨rfl, .builder alike⟩
    | machine alike => exact ⟨rfl, .machine alike⟩
  | builder job =>
    cases alike with
    | body alike => exact ⟨rfl, .body alike⟩
    | builder alike => exact agree_settle (fun _ _ => .builder) (job.blind_task _ _ alike)
    | machine alike => exact ⟨rfl, .machine alike⟩
  | machine job =>
    cases alike with
    | body alike => exact ⟨rfl, .body alike⟩
    | builder alike => exact ⟨rfl, .builder alike⟩
    | machine alike => exact agree_settle (fun _ _ => .machine) (job.blind_task _ _ alike)

end Job

namespace Worker

/-- What comes of jobs that are given to workers one after the other. The job at each place is done
with one of the memories, which has what was remembered on the job afterwards. -/
def work (uses : Nat → Nat) (memories : Nat → DescriptorCache) (workers : Nat → Worker) :
    List (Nat × Job) → List Answer × (Nat → Worker)
  | [] => ([], workers)
  | (i, job) :: rest =>
    let (answer, w) := job.perform ((workers i).given (memories (uses 0)))
    let (answers, workers) := work (fun n => uses (n + 1))
      (Function.update memories (uses 0) w.memory) (Function.update workers i w) rest
    (answer :: answers, workers)

theorem alike_update {workers workers' : Nat → Worker}
    (alike : ∀ i, Alike (workers i) (workers' i)) {w w' : Worker} (new : Alike w w') (i j : Nat) :
    Alike (Function.update workers i w j) (Function.update workers' i w' j) := by
  by_cases same : j = i
  · rw [same, Function.update_self, Function.update_self]
    exact new
  · rw [Function.update_of_ne same, Function.update_of_ne same]
    exact alike j

def AllAgree (x y : List Answer × (Nat → Worker)) : Prop := x.1 = y.1 ∧ ∀ i, Alike (x.2 i) (y.2 i)

/-- Neither what is remembered at first nor who remembers it counts. -/
theorem allAgree_work (jobs : List (Nat × Job)) (uses uses' : Nat → Nat)
    (memories memories' : Nat → DescriptorCache) {workers workers' : Nat → Worker}
    (alike : ∀ i, Alike (workers i) (workers' i)) :
    AllAgree (work uses memories workers jobs) (work uses' memories' workers' jobs) := by
  induction jobs generalizing uses uses' memories memories' workers workers' with
  | nil => exact ⟨rfl, alike⟩
  | cons first rest ih =>
    rcases first with ⟨i, job⟩
    have given := (alike i).given (memories (uses 0)) (memories' (uses' 0))
    rcases job.agree_perform given with ⟨answer, left⟩
    rcases ih (fun n => uses (n + 1)) (fun n => uses' (n + 1)) _ _ (alike_update alike left i)
      with ⟨answers, others⟩
    exact ⟨congrArg₂ List.cons answer answers, others⟩

/-- A memory answers what decoding would, and holds the texts asked for that decode. Workers with
such a memory among them all give the same answers as workers with new memories, of which each may
serve one job, one worker or several, and they are left alike. -/
theorem sharing_agrees (asked : List String) :
    (∀ text, ((DescriptorCache.after {} asked).method? text).1 = MethodDescriptor.decode? text ∧
      ∀ other, ((DescriptorCache.after {} asked).method? text).2.methods[other]? =
        if other = text then MethodDescriptor.decode? text
        else (DescriptorCache.after {} asked).methods[other]?) ∧
    (DescriptorCache.after {} asked).size =
      (asked.filter (Reader.acceptsMethod ·)).dedup.length ∧
    ∀ (workers : Nat → Worker) (jobs : List (Nat × Job)) (uses : Nat → Nat),
      AllAgree (work (fun _ => 0) (fun _ => DescriptorCache.after {} asked) workers jobs)
        (work uses (fun _ => {}) workers jobs) := by
  have decodes (text : String) := (DescriptorCache.after {} asked).method?_fst text
  have remembers (text : String) := (DescriptorCache.after {} asked).get?_method? text
  refine ⟨fun text => ⟨decodes text, remembers text⟩, DescriptorCache.size_after asked, ?_⟩
  intro workers jobs uses
  exact allAgree_work jobs _ uses _ _ fun i => .refl (workers i)

end Worker
end ClassForge
