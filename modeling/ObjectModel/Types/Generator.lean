import ObjectModel.Iteration

/-!
# Members of `generator`

A generator is its own iterator.
-/

namespace ObjectModel

def GeneratorMember.run : GeneratorMember → List Handle → Run Handle
  | new, _ => notImplementedError "generators are created by generator functions"
  | iter, [h] => return h
  | iter, args => wrongArity "generator.__iter__" 1 1 args
  | next, [h] => do
    if (← object h).isGenerator then advance h
    else typeError "`generator.__next__` requires a generator"
  | next, args => wrongArity "generator.__next__" 1 1 args

end ObjectModel
