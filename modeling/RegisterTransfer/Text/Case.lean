namespace RegisterTransfer.Text

def foldCase (s : List Char) : List Char := s.map Char.toLower

def sameIgnoringCase (a b : List Char) : Bool := foldCase a == foldCase b

end RegisterTransfer.Text
