import FrontEnd.Scalar

namespace FrontEnd

inductive Json where
  | scalar (value : Scalar)
  | array (items : List Json)
  | object (fields : List (String × Json))

end FrontEnd
