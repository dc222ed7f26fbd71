import TapeMachine.Library

namespace TapeMachine.Library

/-- The directory of the modules that are always there. -/
def bundledPath : String := "/usr/share/tape/std"

def bundledMath : String :=
"fn abs n : n do
    dup 0 < if 0 swap - end
end

fn neg n : n do 0 swap - end

fn square n : n do dup * end

fn max n n : n do
    let a b do a b > if a else b end end
end

fn min n n : n do
    let a b do a b < if a else b end end
end

fn mod n n : n do
    let a b do a a b / floor b * - end
end
"

def bundledMem : String :=
"fn memfill p n a : do
    let base count value do
        0 while dup count < do
            let i do value base i ptr+ memsave i 1 + end
        end
        drop
    end
end

fn memcopy p p n : do
    let from to count do
        0 while dup count < do
            let i do from i ptr+ memload to i ptr+ memsave i 1 + end
        end
        drop
    end
end
"

def bundledIo : String :=
"fn nl : do \"\\n\" pr end

fn prln a : do pr nl end

fn ask s : s do ips end

fn asknum s : n do ipn end
"

/-- The modules that are there where no other directory is named. -/
def bundled : Library :=
  .directory (FileTree.addAll {} [(bundledPath ++ "/io.tape", bundledIo),
    (bundledPath ++ "/math.tape", bundledMath), (bundledPath ++ "/mem.tape", bundledMem)]) bundledPath

end TapeMachine.Library
